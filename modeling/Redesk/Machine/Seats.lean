import Mathlib.Data.List.Basic
import Mathlib.Tactic.Common

/-! Two seats that are taken by the first two different guests and are never given up, and the post
between them: what one of the two hands in goes to the other one. -/

/-- Nobody, one guest, or two different ones. -/
inductive Seats (α : Type*) where
  | empty
  | one (x : α)
  | two (x y : α) (h : x ≠ y)

namespace Seats

variable {α δ : Type*} {s : Seats α} {x y z : α}

def first : Seats α → Option α
  | .empty => none
  | .one x | .two x _ _ => some x

def second : Seats α → Option α
  | .empty | .one _ => none
  | .two _ y _ => some y

theorem second_isSome (h : s.second.isSome) : s.first.isSome := by
  cases s with
  | empty | one x => cases h
  | two x y h => rfl

theorem first_ne_second (hx : s.first = some x) (hy : s.second = some y) : x ≠ y := by
  cases s with
  | empty | one x => cases hy
  | two x y h =>
    cases hx
    cases hy
    exact h

theorem eq_one_iff : s = one x ↔ s.first = some x ∧ s.second = none := by
  cases s <;> simp [first, second]

variable [DecidableEq α]

/-- A guest who is not seated takes a seat if one is free. -/
def claim : Seats α → α → Seats α
  | .empty, z => .one z
  | .one x, z => if h : x = z then .one x else .two x z h
  | .two x y h, _ => .two x y h

/-- The guest in the other seat. -/
def partner : Seats α → α → Option α
  | .empty, _ | .one _, _ => none
  | .two x y _, z => if z = x then some y else if z = y then some x else none

/-- A seat that is taken stays taken by the same guest. -/
theorem first_claim (hx : s.first = some x) : (s.claim z).first = some x := by
  cases s with
  | empty => cases hx
  | one x =>
    rw [claim]
    split <;> exact hx
  | two x y h => exact hx

theorem second_claim (hy : s.second = some y) : (s.claim z).second = some y := by
  cases s with
  | empty | one x => cases hy
  | two x y h => exact hy

/-- Only the guest who claims a seat can be new. -/
theorem seated_of_claim (hx : (s.claim z).first = some x ∨ (s.claim z).second = some x) :
    (s.first = some x ∨ s.second = some x) ∨ x = z := by
  cases s with
  | empty =>
    rcases hx with hx | hx
    · exact .inr (Option.some.inj hx).symm
    · cases hx
  | one w =>
    rw [claim] at hx
    split at hx
    · exact .inl hx
    · rcases hx with hx | hx
      · exact .inl (.inl hx)
      · exact .inr (Option.some.inj hx).symm
  | two v w h => exact .inl hx

/-- A guest ends up alone just when nobody else was there. -/
theorem claim_eq_one_iff :
    s.claim x = one x ↔ ∀ z, s.first = some z ∨ s.second = some z → z = x := by
  cases s with
  | empty => simp [claim, first, second]
  | one y =>
    by_cases h : y = x
    · simp [claim, first, second, h]
    · simp [claim, first, second, h]
  | two y z h =>
    simp only [claim, first, second, Option.some_inj, reduceCtorEq, false_iff]
    intro hx
    exact h ((hx y (.inl rfl)).trans (hx z (.inr rfl)).symm)

theorem partner_eq_some : s.partner x = some y ↔
    (s.first = some x ∧ s.second = some y) ∨ (s.first = some y ∧ s.second = some x) := by
  cases s with
  | empty | one v => simp [partner, first, second]
  | two v w h =>
    simp only [partner, first, second, Option.some_inj]
    split
    · rename_i hv
      subst hv
      simp only [Option.some_inj, true_and]
      refine ⟨.inl, ?_⟩
      rintro (hw | ⟨-, hw⟩)
      · exact hw
      · exact absurd hw.symm h
    · rename_i hv
      split
      · rename_i hw
        subst hw
        simp [eq_comm, hv]
      · rename_i hw
        simp [eq_comm, hv, hw]

/-- The first guest has no partner only while nobody else is there. -/
theorem eq_one_of_alone (hx : s.first = some x) (hp : s.partner x = none) : s = one x := by
  cases s with
  | empty => cases hx
  | one y =>
    cases hx
    rfl
  | two y z h =>
    cases hx
    simp [partner] at hp

theorem partner_symm (h : s.partner x = some y) : s.partner y = some x :=
  partner_eq_some.mpr (partner_eq_some.mp h).symm

theorem partner_ne (h : s.partner x = some y) : y ≠ x := by
  rcases partner_eq_some.mp h with ⟨hx, hy⟩ | ⟨hy, hx⟩
  · exact (first_ne_second hx hy).symm
  · exact first_ne_second hy hx

theorem partner_claim (h : s.partner x = some y) : (s.claim z).partner x = some y := by
  rw [partner_eq_some] at h ⊢
  exact h.imp (fun h => ⟨first_claim h.1, second_claim h.2⟩)
    (fun h => ⟨first_claim h.1, second_claim h.2⟩)

/-- The seats after a list of arrivals. -/
def seat (s : Seats α) (l : List (α × δ)) : Seats α := l.foldl (fun s p => s.claim p.1) s

/-- What is sent on while the arrivals come in: each item goes to the partner of its sender. -/
def serve (s : Seats α) : List (α × δ) → List (α × δ)
  | [] => []
  | (x, d) :: l => ((s.claim x).partner x).toList.map (·, d) ++ serve (s.claim x) l

theorem serve_append (s : Seats α) (l l' : List (α × δ)) :
    s.serve (l ++ l') = s.serve l ++ (s.seat l).serve l' := by
  induction l generalizing s with
  | nil => rfl
  | cons p l ih => simp [serve, ih, seat]

/-- Once both seats are taken, an item is sent on just when its sender holds one. -/
theorem serve_two (h : x ≠ y) (l : List (α × δ)) : (two x y h).serve l =
    l.filterMap fun p => ((two x y h).partner p.1).map (·, p.2) := by
  induction l with
  | nil => rfl
  | cons p l ih =>
    rw [serve, claim, ih, List.filterMap_cons]
    cases (two x y h).partner p.1 <;> rfl

/-- One guest alone has nobody to send to. -/
theorem serve_one (l : List (α × δ)) (hl : ∀ p ∈ l, p.1 = x) :
    (one x).serve l = [] ∧ (one x).seat l = one x := by
  induction l with
  | nil => exact ⟨rfl, rfl⟩
  | cons p l ih =>
    obtain ⟨hx, hl⟩ := List.forall_mem_cons.mp hl
    obtain ⟨hserve, hseat⟩ := ih hl
    have hclaim : (one x).claim p.1 = one x := by simp [claim, hx]
    constructor
    · simp [serve, hclaim, hserve, partner]
    · simpa [seat, hclaim] using hseat

theorem serve_empty (l : List (α × δ)) (hl : ∀ p ∈ l, p.1 = x) :
    empty.serve l = [] ∧ (l ≠ [] → empty.seat l = one x) := by
  cases l with
  | nil => exact ⟨rfl, fun h => absurd rfl h⟩
  | cons p l =>
    obtain ⟨hx, hl⟩ := List.forall_mem_cons.mp hl
    obtain ⟨hserve, hseat⟩ := serve_one l hl
    have hclaim : empty.claim p.1 = one x := by simp [claim, hx]
    constructor
    · simp [serve, hclaim, hserve, partner]
    · intro _
      simpa [seat, hclaim] using hseat

/-- The first two guests `x` and `y`: from the arrival of `y` on, everything that one of the two
hands in is sent to the other, and nothing else is sent. -/
theorem serve_pair {l₁ l₂ : List (α × δ)} {d : δ} (hl : ∀ p ∈ l₁, p.1 = x) (hne : l₁ ≠ [])
    (h : x ≠ y) : empty.serve (l₁ ++ (y, d) :: l₂) =
      ((y, d) :: l₂).filterMap fun p => ((two x y h).partner p.1).map (·, p.2) := by
  obtain ⟨hserve, hseat⟩ := serve_empty l₁ hl
  rw [serve_append, hserve, hseat hne, ← serve_two]
  simp [serve, claim, h]

end Seats
