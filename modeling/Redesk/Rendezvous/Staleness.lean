import Redesk.Rendezvous.Writes

/-! Bindings past their time to live: which frames can tell a registry that was swept just before
from one that was not. -/
namespace Redesk.Rendezvous.Loop
open Server Machine

variable {signer : Signer} {s : Loop} {h : List Call} {src : Endpoint} {data : Bytes} {now : ℤ}
  {f : Frame} {map map' : Registry}

/-- The reply to a datagram, and the registry after a final expiry, are the same whether or not
there was an expiry just before it. -/
def SweepInvisible (signer : Signer) (s : Loop) (src : Endpoint) (data : Bytes) (now : ℤ) : Prop :=
  let swept : Loop := { s with registry := (s.registry.expire now kRegistryTtlSeconds).2 }
  (handle signer s src data now).1 = (handle signer swept src data now).1 ∧
    ((handle signer s src data now).2.registry.expire now kRegistryTtlSeconds).2 =
      ((handle signer swept src data now).2.registry.expire now kRegistryTtlSeconds).2

/-- A frame that finds a binding past its time to live and goes by it: a lookup, a broker request or
a Keepalive, or a REGISTER with another key that the squat guard still refuses. -/
def MeetsStale (map : Registry) (f : Frame) (now : ℤ) : Prop :=
  ∃ r : PeerRecord, map[target f]? = some r ∧ now - r.lastSeenUnixS > kRegistryTtlSeconds ∧
    (f.type = .lookup ∨ f.type = .brokerCandidates ∨ f.type = .keepalive ∨
      f.type = .register ∧ kStaticPubKeyLen ≤ f.body.length ∧
        r.staticPubkey ≠ f.body.take kStaticPubKeyLen ∧
          now - r.lastSeenUnixS < kSquatGuardWindowS)

/-- The registry that is left by a final expiry. -/
def settled (map : Registry) (src : Endpoint) (f : Frame) (now : ℤ) : Registry :=
  ((offer map (offered map src f now)).expire now kRegistryTtlSeconds).2

/-- An offer that both registries take, or neither, leaves the same after a final expiry. -/
theorem expire_offer {r : PeerRecord} {ttl : ℤ}
    (h : map.Accepts r ↔ (map.expire now ttl).2.Accepts r) :
    ((offer map (some r)).expire now ttl).2 =
      ((offer (map.expire now ttl).2 (some r)).expire now ttl).2 := by
  by_cases ha : map.Accepts r
  · rw [offer, offer, Registry.upsert_of_accepts ha, Registry.upsert_of_accepts (h.mp ha)]
    exact Expiry.sweep_insert_sweep.symm
  · rw [offer, offer, (Registry.upsert_of_not_accepts ha).2,
      (Registry.upsert_of_not_accepts (mt h.mpr ha)).2]
    exact Expiry.sweep_sweep.symm

theorem reply_congr (h : map[target f]? = map'[target f]?) :
    reply signer map src f now = reply signer map' src f now := by
  cases ht : f.type with
  | register =>
    have hid : map[(registration src f now).id]? = map'[(registration src f now).id]? := by
      simpa [target, ht] using h
    rw [reply_register ht, reply_register ht]
    simp only [Registry.accepts_congr hid]
  | lookup =>
    have hid : map[lookupTarget f]? = map'[lookupTarget f]? := by simpa [target, ht] using h
    simp only [reply, ht, handleLookup, Registry.lookup, hid]
  | brokerCandidates =>
    have hid : map[f.id]? = map'[f.id]? := by simpa [target, ht] using h
    simp only [reply, ht, handleBroker, Registry.lookup, hid]
  | _ => simp only [reply, ht]

theorem settled_congr (ho : map.Owned) (h : map[target f]? =
    (map.expire now kRegistryTtlSeconds).2[target f]?) :
    settled map src f now = settled (map.expire now kRegistryTtlSeconds).2 src f now := by
  have hoffered : offered (map.expire now kRegistryTtlSeconds).2 src f now =
      offered map src f now := by
    cases ht : f.type with
    | keepalive =>
      have hid : map[f.id]? = (map.expire now kRegistryTtlSeconds).2[f.id]? := by
        simpa [target, ht] using h
      simp only [offered, ht, Registry.lookup, hid]
    | _ => simp only [offered, ht]
  rw [settled, settled, hoffered]
  rcases offered_cases map src f now with hnone | ⟨ht, -, hsome⟩ | ⟨r, ht, hr, hsome⟩
  · rw [hnone]
    exact Expiry.sweep_sweep.symm
  · rw [hsome]
    apply expire_offer
    apply Registry.accepts_congr
    simpa [target, ht] using h
  · rw [hsome]
    apply expire_offer
    apply Registry.accepts_congr
    show map[r.id]? = (map.expire now kRegistryTtlSeconds).2[r.id]?
    rw [(ho f.id r hr).1]
    simpa [target, ht] using h

/-- A sweep just before shows neither in the reply to a frame nor in the registry after it. -/
def Unseen (signer : Signer) (map : Registry) (src : Endpoint) (f : Frame) (now : ℤ) : Prop :=
  reply signer map src f now = reply signer (map.expire now kRegistryTtlSeconds).2 src f now ∧
    settled map src f now = settled (map.expire now kRegistryTtlSeconds).2 src f now

theorem sweepInvisible_iff_of_frame (hf : frameOf data = some f) :
    SweepInvisible signer s src data now ↔ Unseen signer s.registry src f now := by
  simp only [SweepInvisible, Unseen, reply_handle, registry_handle, hf, Option.bind_some, settled]

theorem meetsStale_iff {r : PeerRecord} (hr : map[target f]? = some r)
    (hstale : now - r.lastSeenUnixS > kRegistryTtlSeconds) : MeetsStale map f now ↔
      (f.type = .lookup ∨ f.type = .brokerCandidates ∨ f.type = .keepalive ∨
        f.type = .register ∧ kStaticPubKeyLen ≤ f.body.length ∧
          r.staticPubkey ≠ f.body.take kStaticPubKeyLen ∧
            now - r.lastSeenUnixS < kSquatGuardWindowS) := by
  constructor
  · rintro ⟨r', hr', -, hm⟩
    obtain rfl := Option.some.inj (hr.symm.trans hr')
    exact hm
  · exact fun hm => ⟨r, hr, hstale, hm⟩

theorem type_of_sendFrame_eq {dst dst' : Endpoint} {t t' : MessageType} {id id' : RedeskId}
    {body body' : Bytes} (h : sendFrame dst t id body = sendFrame dst' t' id' body') : t = t' :=
  type_of_encodeFrame_eq (Prod.mk.inj h).2

/-- A record that was just taken is there after a final expiry. -/
theorem getElem?_settled_of_taken {r : PeerRecord} (ho : offered map src f now = some r)
    (ha : map.Accepts r) (hnow : r.lastSeenUnixS = now) :
    (settled map src f now)[r.id]? = some r := by
  rw [settled, ho, offer, Registry.upsert_of_accepts ha, Registry.expire_eq_sweep,
    Expiry.getElem?_sweep_of_fresh]
  · exact Std.ExtTreeMap.getElem?_insert_self
  · intro r' hr'
    rw [Std.ExtTreeMap.getElem?_insert_self] at hr'
    obtain rfl := Option.some.inj hr'
    simp [Registry.fresh, hnow, kRegistryTtlSeconds]

/-- A REGISTER shows whether a stale binding was swept just when the squat guard refuses it. -/
theorem unseen_register_iff {r : PeerRecord} (ho : map.Owned) (ht : f.type = .register)
    (hr : map[f.id]? = some r)
    (hgone : (map.expire now kRegistryTtlSeconds).2[f.id]? = none) :
    Unseen signer map src f now ↔ ¬ (kStaticPubKeyLen ≤ f.body.length ∧
      r.staticPubkey ≠ f.body.take kStaticPubKeyLen ∧
        now - r.lastSeenUnixS < kSquatGuardWindowS) := by
  obtain ⟨-, hne, -⟩ := ho f.id r hr
  by_cases hlen : kStaticPubKeyLen ≤ f.body.length
  · have hoffered (map : Registry) : offered map src f now = some (registration src f now) := by
      simp only [offered, ht, if_neg (Nat.not_lt.mpr hlen)]
    have hkey : (registration src f now).staticPubkey.length = kStaticPubKeyLen := by
      simpa [registration] using hlen
    have hswept : (map.expire now kRegistryTtlSeconds).2.Accepts (registration src f now) := by
      refine ⟨hne, hkey, ?_⟩
      rw [Registry.guarded, registration_id, hgone]
    have hguard : map.guarded (registration src f now) = true ↔
        r.staticPubkey ≠ f.body.take kStaticPubKeyLen ∧
          now - r.lastSeenUnixS < kSquatGuardWindowS := by
      rw [Registry.guarded_eq_true]
      constructor
      · rintro ⟨prior, hprior, hlive, hdiffers⟩
        obtain rfl := Option.some.inj (hr.symm.trans hprior)
        exact ⟨hdiffers, hlive⟩
      · rintro ⟨hdiffers, hlive⟩
        exact ⟨r, hr, hlive, hdiffers⟩
    by_cases ha : map.Accepts (registration src f now)
    · -- taken either way: the key is the same or the binding has left the squat window
      refine iff_of_true ⟨?_, ?_⟩ ?_
      · rw [reply_register ht, reply_register ht, if_pos ⟨hlen, ha⟩, if_pos ⟨hlen, hswept⟩]
      · rw [settled, settled, hoffered, hoffered]
        exact expire_offer (iff_of_true ha hswept)
      · rintro ⟨-, hrefused⟩
        exact absurd (hguard.mpr hrefused) (by simp [ha.2.2])
    · -- refused by a stale binding, which the final expiry drops
      refine iff_of_false ?_ (not_not.mpr ⟨hlen, hguard.mp ?_⟩)
      · rintro ⟨-, hsettled⟩
        have htaken := getElem?_settled_of_taken (hoffered _) hswept rfl
        rw [← hsettled, settled, hoffered, offer, (Registry.upsert_of_not_accepts ha).2,
          registration_id, hgone] at htaken
        cases htaken
      · by_contra hfree
        exact ha ⟨hne, hkey, Bool.not_eq_true _ ▸ hfree⟩
  · refine iff_of_true ⟨?_, ?_⟩ (fun h => hlen h.1)
    · rw [reply_register ht, reply_register ht, if_neg (fun h => hlen h.1),
        if_neg (fun h => hlen h.1)]
    · simp only [settled, offered, ht, if_pos (Nat.lt_of_not_le hlen), offer]
      exact Expiry.sweep_sweep.symm

/-- A Keepalive refreshes a stale binding that was not swept. -/
theorem not_unseen_keepalive {r : PeerRecord} (ho : map.Owned) (ht : f.type = .keepalive)
    (hr : map[f.id]? = some r)
    (hgone : (map.expire now kRegistryTtlSeconds).2[f.id]? = none) :
    ¬ Unseen signer map src f now := by
  rintro ⟨-, hsettled⟩
  have hoffered : offered map src f now =
      some { r with endpoint := src, lastSeenUnixS := now } := by
    simp only [offered, ht, Registry.lookup, hr, Option.map_some]
  have hignored : offered (map.expire now kRegistryTtlSeconds).2 src f now = none := by
    simp only [offered, ht, Registry.lookup, hgone, Option.map_none]
  have htaken := getElem?_settled_of_taken hoffered (ho.accepts_refresh hr src) rfl
  rw [hsettled, settled, hignored, offer, Registry.expire_eq_sweep, (ho f.id r hr).1,
    Registry.expire_eq_sweep, Expiry.sweep_sweep] at htaken
  exact absurd (hgone.symm.trans htaken) (by simp)

/-- A lookup or a broker request is answered with LookupFail once a stale binding was swept. -/
theorem not_unseen_asks {r : PeerRecord} (ht : f.type = .lookup ∨ f.type = .brokerCandidates)
    (hr : map[target f]? = some r)
    (hgone : (map.expire now kRegistryTtlSeconds).2[target f]? = none) :
    ¬ Unseen signer map src f now := by
  rintro ⟨hreply, -⟩
  rcases ht with ht | ht
  · have htarget : target f = lookupTarget f := by simp [target, ht]
    rw [htarget] at hr hgone
    simp only [reply, ht, handleLookup, Registry.lookup, hr, hgone] at hreply
    split at hreply
    · cases hreply
    · cases type_of_sendFrame_eq (Option.some.inj hreply)
  · have htarget : target f = f.id := by simp [target, ht]
    rw [htarget] at hr hgone
    simp only [reply, ht, handleBroker, Registry.lookup, hr, hgone] at hreply
    cases type_of_sendFrame_eq (Option.some.inj hreply)

/-- A frame about a stale binding shows whether the registry was swept just when it goes by it. -/
theorem stale_iff {r : PeerRecord} (ho : map.Owned) (hr : map[target f]? = some r)
    (hstale : now - r.lastSeenUnixS > kRegistryTtlSeconds) :
    Unseen signer map src f now ↔ ¬ MeetsStale map f now := by
  have hgone : (map.expire now kRegistryTtlSeconds).2[target f]? = none :=
    Expiry.getElem?_sweep_of_stale hr (by simp [hstale])
  rw [meetsStale_iff hr hstale]
  cases ht : f.type with
  | register =>
    have htarget : target f = f.id := by simp [target, ht]
    rw [htarget] at hr hgone
    simpa using unseen_register_iff ho ht hr hgone
  | keepalive =>
    have htarget : target f = f.id := by simp [target, ht]
    rw [htarget] at hr hgone
    exact iff_of_false (not_unseen_keepalive ho ht hr hgone) (by simp)
  | lookup => exact iff_of_false (not_unseen_asks (.inl ht) hr hgone) (by simp)
  | brokerCandidates => exact iff_of_false (not_unseen_asks (.inr ht) hr hgone) (by simp)
  | unknown | registerOk | lookupOk | lookupFail =>
    refine iff_of_true ⟨?_, ?_⟩ (by simp)
    · simp only [reply, ht]
    · simp only [settled, offered, ht, offer]
      exact Expiry.sweep_sweep.symm

/-- A sweep just before a datagram makes no difference just when the datagram is no frame that goes
by a binding past its time to live. -/
theorem sweepInvisible_iff {start : ℤ} (hr : Run signer { lastSweep := start } h s) :
    SweepInvisible signer s src data now ↔
      ∀ f, frameOf data = some f → ¬ MeetsStale s.registry f now := by
  have ho := owned_run hr Registry.owned_empty
  cases hf : frameOf data with
  | none =>
    refine iff_of_true ?_ (by simp)
    simp only [SweepInvisible, reply_handle, registry_handle, hf, Option.bind_none, offer]
    exact ⟨trivial, Expiry.sweep_sweep.symm⟩
  | some f =>
    have hone : (∀ f', some f = some f' → ¬ MeetsStale s.registry f' now) ↔
        ¬ MeetsStale s.registry f now := by simp
    rw [sweepInvisible_iff_of_frame hf, hone]
    by_cases hstale : ∃ r : PeerRecord, s.registry[target f]? = some r ∧
        now - r.lastSeenUnixS > kRegistryTtlSeconds
    · obtain ⟨r, hr, hold⟩ := hstale
      exact stale_iff ho hr hold
    · have hsame : s.registry[target f]? =
          (s.registry.expire now kRegistryTtlSeconds).2[target f]? := by
        refine (Expiry.getElem?_sweep_of_fresh ?_).symm
        intro r hr
        exact Registry.fresh_iff.mpr fun hold => hstale ⟨r, hr, hold⟩
      refine iff_of_true ⟨reply_congr hsame, settled_congr ho hsame⟩ ?_
      rintro ⟨r, hr, hold, -⟩
      exact hstale ⟨r, hr, hold⟩

theorem sweepInvisible_fresh : SweepInvisible insecureTestSigner registered { port := 2 }
    (encodeFrame { type := .lookup, id := [9] }) 60 := by
  refine (sweepInvisible_iff (run_calls _ _)).mpr ?_
  intro f hf
  have hframe : frameOf (encodeFrame { type := .lookup, id := [9] }) =
      some { type := .lookup, id := [9] } := by decide
  obtain rfl := Option.some.inj (hframe.symm.trans hf)
  rintro ⟨r, hr, hold, -⟩
  obtain rfl := Option.some.inj (getElem?_registered.symm.trans hr)
  exact absurd hold (by decide)

/-- A lookup is answered with a binding that is past its time to live. -/
theorem not_sweepInvisible_stale : ¬ SweepInvisible insecureTestSigner registered { port := 2 }
    (encodeFrame { type := .lookup, id := [9] }) 100 := by
  intro hp
  exact absurd hp.1 (by decide +kernel)

end Redesk.Rendezvous.Loop
