import Redesk.Rendezvous.Protocol
import Redesk.Server.Net
import Redesk.Machine.Expiry

/-! The registry of the rendezvous server: where each id was last seen, and with which key. -/
namespace Redesk.Rendezvous
open Server

structure PeerRecord where
  id : RedeskId := []
  /-- The observed source of the packet. -/
  endpoint : Endpoint := {}
  staticPubkey : StaticPubKey := []
  lastSeenUnixS : ℤ := 0
  deriving DecidableEq, Repr

/-- How long a binding counts as live for the squat guard. -/
def kSquatGuardWindowS : ℤ := 90

abbrev Registry := Std.ExtTreeMap RedeskId PeerRecord compare

namespace Registry

/-- The guard of `upsert`: an existing binding that is live and has another key. -/
def guarded (map : Registry) (rec : PeerRecord) : Bool :=
  match map[rec.id]? with
  | some prior => decide (rec.lastSeenUnixS - prior.lastSeenUnixS < kSquatGuardWindowS) &&
      decide (prior.staticPubkey ≠ rec.staticPubkey)
  | none => false

def upsert (map : Registry) (rec : PeerRecord) : Status × Registry :=
  if rec.id.isEmpty then (.error .invalidArgument "empty REDesk-ID", map)
  else if rec.staticPubkey.length ≠ kStaticPubKeyLen then
    (.error .invalidArgument "static pubkey must be 32 bytes (X25519)", map)
  else if map.guarded rec then
    (.error .permissionDenied "REDesk-ID held by a live peer with a different key", map)
  else (.success, map.insert rec.id rec)

def lookup (map : Registry) (id : RedeskId) : Option PeerRecord := map[id]?

/-- Drops the bindings that were last seen more than `ttl` seconds ago, and counts them. -/
def expire (map : Registry) (now ttl : ℤ) : ℕ × Registry :=
  let kept := map.filter fun _ rec => !decide (now - rec.lastSeenUnixS > ttl)
  (map.size - kept.size, kept)

variable {map : Registry} {rec : PeerRecord} {id : RedeskId} {now ttl : ℤ}

/-- A record that `upsert` takes. -/
def Accepts (map : Registry) (rec : PeerRecord) : Prop :=
  rec.id ≠ [] ∧ rec.staticPubkey.length = kStaticPubKeyLen ∧ map.guarded rec = false

instance : Decidable (map.Accepts rec) := inferInstanceAs (Decidable (_ ∧ _ ∧ _))

theorem upsert_of_accepts (h : map.Accepts rec) :
    map.upsert rec = (.success, map.insert rec.id rec) := by
  obtain ⟨hid, hlen, hguard⟩ := h
  simp [upsert, hid, hlen, hguard]

/-- A refused record leaves the registry as it was. -/
theorem upsert_of_not_accepts (h : ¬ map.Accepts rec) :
    (map.upsert rec).1.ok = false ∧ (map.upsert rec).2 = map := by
  unfold upsert
  split
  · exact ⟨rfl, rfl⟩
  split
  · exact ⟨rfl, rfl⟩
  split
  · exact ⟨rfl, rfl⟩
  · rename_i hid hlen hguard
    exact absurd ⟨by simpa using hid, by simpa using hlen, by simpa using hguard⟩ h

theorem upsert_ok_iff : (map.upsert rec).1.ok = true ↔ map.Accepts rec := by
  by_cases h : map.Accepts rec
  · rw [upsert_of_accepts h]
    exact iff_of_true rfl h
  · rw [(upsert_of_not_accepts h).1]
    exact iff_of_false Bool.false_ne_true h

/-- Whether a record is taken is decided by the binding of its id. -/
theorem accepts_congr {map' : Registry} (h : map[rec.id]? = map'[rec.id]?) :
    map.Accepts rec ↔ map'.Accepts rec := by
  rw [Accepts, Accepts, guarded, guarded, h]

theorem getElem?_upsert_of_ne (h : rec.id ≠ id) : (map.upsert rec).2[id]? = map[id]? := by
  by_cases ha : map.Accepts rec
  · rw [upsert_of_accepts ha, Std.ExtTreeMap.getElem?_insert]
    simp [h]
  · rw [(upsert_of_not_accepts ha).2]

theorem guarded_eq_true : map.guarded rec = true ↔ ∃ prior, map[rec.id]? = some prior ∧
    rec.lastSeenUnixS - prior.lastSeenUnixS < kSquatGuardWindowS ∧
      prior.staticPubkey ≠ rec.staticPubkey := by
  unfold guarded
  cases map[rec.id]? <;> simp

/-- A binding that an expiry at `now` keeps. -/
def fresh (now ttl : ℤ) (rec : PeerRecord) : Bool := !decide (now - rec.lastSeenUnixS > ttl)

theorem fresh_iff : fresh now ttl rec = true ↔ ¬ now - rec.lastSeenUnixS > ttl := by
  simp [fresh]

theorem expire_eq_sweep : (map.expire now ttl).2 = Expiry.sweep (fresh now ttl) map := rfl

/-- Every binding is stored under its own id, which is not empty, with a key of the right length. -/
def Owned (map : Registry) : Prop :=
  ∀ (id : RedeskId) (rec : PeerRecord), map[id]? = some rec →
    rec.id = id ∧ id ≠ [] ∧ rec.staticPubkey.length = kStaticPubKeyLen

theorem owned_empty : Owned ∅ := by
  intro id rec h
  simp at h

theorem Owned.upsert (h : map.Owned) : (map.upsert rec).2.Owned := by
  by_cases ha : map.Accepts rec
  · rw [upsert_of_accepts ha]
    intro id rec' hrec
    rw [Std.ExtTreeMap.getElem?_insert] at hrec
    split at hrec
    · rename_i heq
      obtain rfl := Option.some.inj hrec
      obtain rfl := Std.LawfulEqOrd.eq_of_compare heq
      exact ⟨rfl, ha.1, ha.2.1⟩
    · exact h id rec' hrec
  · rw [(upsert_of_not_accepts ha).2]
    exact h

theorem Owned.expire (h : map.Owned) : (map.expire now ttl).2.Owned := by
  intro id rec hrec
  rw [expire_eq_sweep, Expiry.getElem?_sweep] at hrec
  exact h id rec (Option.eq_some_of_filter_eq_some hrec)

/-- A binding with its own key may always be refreshed. -/
theorem Owned.accepts_refresh (h : map.Owned) (hr : map[id]? = some rec) (src : Endpoint) :
    map.Accepts { rec with endpoint := src, lastSeenUnixS := now } := by
  obtain ⟨rfl, hne, hlen⟩ := h id rec hr
  refine ⟨hne, hlen, ?_⟩
  rw [← Bool.not_eq_true, guarded_eq_true]
  rintro ⟨prior, hprior, -, hkey⟩
  obtain rfl := Option.some.inj (hr.symm.trans hprior)
  exact hkey rfl

end Registry

end Redesk.Rendezvous
