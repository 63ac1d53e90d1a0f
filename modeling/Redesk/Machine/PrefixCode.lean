import Mathlib.Data.List.Basic
import Mathlib.Tactic.Common

/-! Encodings that say where they end: what follows the code of an element tells neither which
element it is nor where its code stops. -/
namespace PrefixCode

variable {α β γ : Type*} {P : α → Prop} {Q : β → Prop} {f : α → List γ} {g : β → List γ}

/-- The code of an element of `P`, and what comes after it, can be told apart. -/
def Readable (P : α → Prop) (f : α → List γ) : Prop :=
  ∀ ⦃x y⦄, P x → P y → ∀ ⦃r s⦄, f x ++ r = f y ++ s → x = y ∧ r = s

theorem Readable.injOn (h : Readable P f) {x y : α} (hx : P x) (hy : P y) (heq : f x = f y) :
    x = y :=
  (h hx hy (congrArg (· ++ []) heq)).1

/-- No code is a proper prefix of another one. -/
theorem Readable.eq_of_prefix (h : Readable P f) {x y : α} (hx : P x) (hy : P y)
    (hp : f x <+: f y) : x = y := by
  obtain ⟨r, hr⟩ := hp
  refine (h (r := r) (s := []) hx hy ?_).1
  rw [hr, List.append_nil]

/-- Two codes one after the other are a code of the pair. -/
theorem Readable.append (hf : Readable P f) (hg : Readable Q g) :
    Readable (fun p : α × β => P p.1 ∧ Q p.2) fun p => f p.1 ++ g p.2 := by
  rintro ⟨x, x'⟩ ⟨y, y'⟩ ⟨hx, hx'⟩ ⟨hy, hy'⟩ r s heq
  simp only [List.append_assoc] at heq
  obtain ⟨rfl, hrest⟩ := hf hx hy heq
  obtain ⟨rfl, hend⟩ := hg hx' hy' hrest
  exact ⟨rfl, hend⟩

/-- A length of its own before each element makes a code of the lists. -/
theorem readable_of_length {f : List γ → γ} {P : List γ → Prop}
    (hf : ∀ ⦃x y⦄, P x → P y → f x = f y → x.length = y.length) :
    Readable P fun x => f x :: x := by
  intro x y hx hy r s heq
  obtain ⟨hhead, htail⟩ := List.cons_eq_cons.mp heq
  exact List.append_inj htail (hf hx hy hhead)

/-- A separator ends what it does not occur in. -/
theorem append_cons_inj {sep : γ} {x y r s : List γ} (hx : sep ∉ x) (hy : sep ∉ y)
    (h : x ++ sep :: r = y ++ sep :: s) : x = y ∧ r = s := by
  induction x generalizing y with
  | nil =>
    cases y with
    | nil => exact ⟨rfl, List.tail_eq_of_cons_eq h⟩
    | cons c y =>
      obtain ⟨rfl, -⟩ := List.cons_eq_cons.mp h
      exact absurd (List.mem_cons_self ..) hy
  | cons b x ih =>
    cases y with
    | nil =>
      obtain ⟨rfl, -⟩ := List.cons_eq_cons.mp h
      exact absurd (List.mem_cons_self ..) hx
    | cons c y =>
      obtain ⟨rfl, htail⟩ := List.cons_eq_cons.mp h
      obtain ⟨rfl, rfl⟩ := ih (List.not_mem_of_not_mem_cons hx) (List.not_mem_of_not_mem_cons hy)
        htail
      exact ⟨rfl, rfl⟩

end PrefixCode
