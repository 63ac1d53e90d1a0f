import Mathlib.Order.Lattice
import Mathlib.Order.Bounds.Basic
import Mathlib.Order.MinMax
import Mathlib.Tactic.Common

/-! The tiers of the wire protocol, and the one on which two ends settle: the running best of a
loop, which is the greatest of the elements of a list that qualify. -/
namespace Best

variable {α : Type*} [LinearOrder α] {p : α → Prop} [DecidablePred p] {b t : α} {xs : List α}

/-- The loop that keeps the best so far. -/
def best (p : α → Prop) [DecidablePred p] (b : α) (xs : List α) : α :=
  xs.foldl (fun b x => if p x then max b x else b) b

theorem best_cons {x : α} : best p b (x :: xs) = best p (if p x then max b x else b) xs := rfl

/-- The bounds of the best are those of all that qualify and of what the loop began with. -/
theorem best_le_iff : best p b xs ≤ t ↔ b ≤ t ∧ ∀ x ∈ xs, p x → x ≤ t := by
  induction xs generalizing b with
  | nil => simp [best]
  | cons x xs ih =>
    rw [best_cons, ih, List.forall_mem_cons]
    by_cases hx : p x
    · simp [hx, and_assoc]
    · simp [hx]

/-- The best is what the loop began with or qualifies. -/
theorem best_mem (p : α → Prop) [DecidablePred p] (b : α) (xs : List α) :
    best p b xs = b ∨ best p b xs ∈ xs ∧ p (best p b xs) := by
  induction xs generalizing b with
  | nil => exact .inl rfl
  | cons x xs ih =>
    rw [best_cons]
    rcases ih (if p x then max b x else b) with hstart | ⟨hmem, hp⟩
    · rw [hstart]
      by_cases hx : p x
      · rw [if_pos hx]
        rcases max_choice b x with hmax | hmax
        · exact .inl hmax
        · rw [hmax]
          exact .inr ⟨List.mem_cons_self .., hx⟩
      · rw [if_neg hx]
        exact .inl rfl
    · exact .inr ⟨List.mem_cons_of_mem x hmem, hp⟩

end Best

namespace Redesk.Proto

/-- A tier is its byte on the wire, which need not be one of those that have a name. -/
structure CodecTier where
  toByte : UInt8
  deriving DecidableEq, Repr

namespace CodecTier

/-- No common tier. -/
def kNone : CodecTier := ⟨0⟩

def kH264High420 : CodecTier := ⟨1⟩

def kHevc420 : CodecTier := ⟨2⟩

def kHevc444 : CodecTier := ⟨3⟩

def kAv1 : CodecTier := ⟨4⟩

/-- Worst to best. -/
instance : LinearOrder CodecTier :=
  LinearOrder.lift' (fun t => t.toByte.toNat) fun s t h => by
    cases s
    cases t
    exact congrArg mk (UInt8.toNat_inj.mp h)

theorem lt_iff {s t : CodecTier} : s < t ↔ s.toByte < t.toByte := UInt8.lt_iff_toNat_lt.symm

theorem kNone_le (t : CodecTier) : kNone ≤ t := Nat.zero_le t.toByte.toNat

end CodecTier

def negotiateCodec (loc remote : List CodecTier) : CodecTier :=
  loc.foldl (fun best l =>
    if l = .kNone then best
    else remote.foldl (fun best r => if l = r ∧ l.toByte > best.toByte then l else best) best)
    .kNone

variable {l t : CodecTier} {loc remote loc' remote' : List CodecTier}

/-- The tiers that both ends have. -/
def common (loc remote : List CodecTier) : Set CodecTier :=
  {t | t ≠ .kNone ∧ t ∈ loc ∧ t ∈ remote}

/-- The negotiated tier is the best that both ends have, whichever end asks, in whatever order the
tiers are given. -/
structure HighestCommon (negotiate : List CodecTier → List CodecTier → CodecTier) : Prop where
  greatest : ∀ loc remote, (common loc remote).Nonempty →
    IsGreatest (common loc remote) (negotiate loc remote)
  none : ∀ loc remote, common loc remote = ∅ → negotiate loc remote = .kNone
  symm : ∀ loc remote, negotiate loc remote = negotiate remote loc
  sets : ∀ loc remote loc' remote', (∀ t, t ∈ loc ↔ t ∈ loc') → (∀ t, t ∈ remote ↔ t ∈ remote') →
    negotiate loc remote = negotiate loc' remote'
  mono : ∀ loc remote loc' remote', loc ⊆ loc' → remote ⊆ remote' →
    negotiate loc remote ≤ negotiate loc' remote'

/-- The inner loop takes a tier that the other end has and that is better. -/
theorem foldl_remote (l : CodecTier) (remote : List CodecTier) (best : CodecTier) :
    remote.foldl (fun best r => if l = r ∧ l.toByte > best.toByte then l else best) best =
      if l ∈ remote then max best l else best := by
  induction remote generalizing best with
  | nil => rfl
  | cons r remote ih =>
    rw [List.foldl_cons, ih]
    by_cases hr : l = r
    · have hmax : (if l = r ∧ l.toByte > best.toByte then l else best) = max best l := by
        rw [max_def_lt]
        exact if_congr ((and_iff_right hr).trans CodecTier.lt_iff.symm) rfl rfl
      rw [hmax, max_assoc, max_self, ite_self, if_pos (hr ▸ List.mem_cons_self ..)]
    · have hskip : (if l = r ∧ l.toByte > best.toByte then l else best) = best :=
        if_neg fun h => hr h.1
      rw [hskip]
      exact if_congr (by simp [hr]) rfl rfl

theorem negotiateCodec_eq_best (loc remote : List CodecTier) : negotiateCodec loc remote =
    Best.best (fun l => l ≠ .kNone ∧ l ∈ remote) .kNone loc := by
  rw [negotiateCodec, Best.best]
  congr
  funext best l
  rw [foldl_remote]
  by_cases hl : l = .kNone
  · rw [if_pos hl, if_neg fun h => h.1 hl]
  · rw [if_neg hl]
    exact if_congr (by simp [hl]) rfl rfl

/-- Above the negotiated tier are the bounds of the common tiers. -/
theorem negotiateCodec_le_iff :
    negotiateCodec loc remote ≤ t ↔ t ∈ upperBounds (common loc remote) := by
  rw [negotiateCodec_eq_best, Best.best_le_iff, and_iff_right (CodecTier.kNone_le t)]
  constructor
  · rintro hall l ⟨hnone, hloc, hremote⟩
    exact hall l hloc ⟨hnone, hremote⟩
  · rintro hall l hloc ⟨hnone, hremote⟩
    exact hall ⟨hnone, hloc, hremote⟩

theorem negotiateCodec_mem (loc remote : List CodecTier) :
    negotiateCodec loc remote = .kNone ∨ negotiateCodec loc remote ∈ common loc remote := by
  rw [negotiateCodec_eq_best]
  rcases Best.best_mem (fun l => l ≠ .kNone ∧ l ∈ remote) .kNone loc with
    hnone | ⟨hloc, hne, hremote⟩
  · exact .inl hnone
  · exact .inr ⟨hne, hloc, hremote⟩

/-- More common tiers are not worse. -/
theorem negotiateCodec_mono (h : common loc remote ⊆ common loc' remote') :
    negotiateCodec loc remote ≤ negotiateCodec loc' remote' :=
  negotiateCodec_le_iff.mpr (upperBounds_mono_set h (negotiateCodec_le_iff.mp le_rfl))

theorem negotiateCodec_congr (h : common loc remote = common loc' remote') :
    negotiateCodec loc remote = negotiateCodec loc' remote' :=
  le_antisymm (negotiateCodec_mono h.subset) (negotiateCodec_mono h.symm.subset)

theorem highestCommon : HighestCommon negotiateCodec where
  greatest := by
    rintro loc remote ⟨t, ht⟩
    have hbound : negotiateCodec loc remote ∈ upperBounds (common loc remote) :=
      negotiateCodec_le_iff.mp le_rfl
    refine ⟨(negotiateCodec_mem loc remote).resolve_left fun hnone => ?_, hbound⟩
    -- a common tier is not the sentinel, and so above it
    have hle := hbound ht
    rw [hnone] at hle
    exact ht.1 (le_antisymm hle (CodecTier.kNone_le t))
  none := by
    intro loc remote hempty
    refine (negotiateCodec_mem loc remote).resolve_right fun hmem => ?_
    rw [hempty] at hmem
    exact hmem
  symm := by
    intro loc remote
    apply negotiateCodec_congr
    ext t
    exact and_congr_right fun _ => and_comm
  sets := by
    intro loc remote loc' remote' hloc hremote
    apply negotiateCodec_congr
    ext t
    exact and_congr_right fun _ => and_congr (hloc t) (hremote t)
  mono := by
    intro loc remote loc' remote' hloc hremote
    apply negotiateCodec_mono
    rintro t ⟨hnone, hl, hr⟩
    exact ⟨hnone, hloc hl, hremote hr⟩

example : negotiateCodec [.kHevc444, ⟨9⟩, .kH264High420] [⟨9⟩, .kAv1, .kHevc444] = ⟨9⟩ := by
  decide

end Redesk.Proto
