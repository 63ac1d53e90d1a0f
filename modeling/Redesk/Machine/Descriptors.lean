import Mathlib.Logic.Equiv.Basic
import Redesk.Machine.Past

/-! Descriptors that a system hands out and takes back, and the owners that hold them: nothing is
returned that is not held, and what is held has one owner. -/
namespace Descriptors
open Machine

variable {α ι : Type*}

inductive Call (α : Type*) where
  | opened (d : α)
  | closed (d : α)
  deriving DecidableEq, Repr

/-- Handed out and not taken back since. -/
def IsOpen (t : List (Call α)) (d : α) : Prop := Since (· = .opened d) (· = .closed d) t

@[simp] theorem not_isOpen_nil {d : α} : ¬ IsOpen [] d := since_nil

@[simp] theorem isOpen_opened {t : List (Call α)} {d e : α} :
    IsOpen (t ++ [.opened e]) d ↔ e = d ∨ IsOpen t d := by
  simp [IsOpen]

@[simp] theorem isOpen_closed {t : List (Call α)} {d e : α} :
    IsOpen (t ++ [.closed e]) d ↔ e ≠ d ∧ IsOpen t d := by
  simp [IsOpen]

/-- A fresh descriptor that is returned at once changes nothing. -/
theorem isOpen_borrow {t : List (Call α)} {d e : α} (hd : ¬ IsOpen t d) :
    IsOpen (t ++ [.opened d] ++ [.closed d]) e ↔ IsOpen t e := by
  rw [isOpen_closed, isOpen_opened]
  constructor
  · rintro ⟨hne, rfl | he⟩
    · exact absurd rfl hne
    · exact he
  · intro he
    refine ⟨?_, .inr he⟩
    rintro rfl
    exact hd he

/-- Only open descriptors are closed: none twice, and none that somebody else was given since. -/
def ClosesOpen : List (Call α) → Prop := Along fun a c => ∀ d, c = .closed d → IsOpen a d

@[simp] theorem closesOpen_opened {t : List (Call α)} {e : α} :
    ClosesOpen (t ++ [.opened e]) ↔ ClosesOpen t := by
  simp [ClosesOpen, along_snoc]

@[simp] theorem closesOpen_closed {t : List (Call α)} {e : α} :
    ClosesOpen (t ++ [.closed e]) ↔ ClosesOpen t ∧ IsOpen t e := by
  simp [ClosesOpen, along_snoc]

/-- The open descriptors are those that the owners hold, each held by one. -/
structure Owned (t : List (Call α)) (held : ι → Option α) : Prop where
  closesOpen : ClosesOpen t
  isOpen_iff : ∀ d, IsOpen t d ↔ ∃ i, held i = some d
  unique : ∀ i j d, held i = some d → held j = some d → i = j

namespace Owned
variable {t : List (Call α)} {held : ι → Option α} {i j : ι} {d : α}

theorem nil : Owned ([] : List (Call α)) fun _ : ι => none where
  closesOpen := along_nil
  isOpen_iff d := by simp
  unique i j d hi := by cases hi

/-- When nobody holds a descriptor, none is open. -/
theorem not_isOpen (ho : Owned t held) (hnone : ∀ i, held i = none) (d : α) : ¬ IsOpen t d := by
  intro hopen
  obtain ⟨i, hi⟩ := (ho.isOpen_iff d).mp hopen
  rw [hnone i] at hi
  cases hi

/-- What is held may change hands. -/
theorem comp (ho : Owned t held) (σ : Equiv.Perm ι) : Owned t (held ∘ σ) where
  closesOpen := ho.closesOpen
  isOpen_iff d := by
    rw [ho.isOpen_iff]
    exact σ.symm.exists_congr_left
  unique i j d hi hj := σ.injective (ho.unique (σ i) (σ j) d hi hj)

theorem borrow (ho : Owned t held) (hd : ¬ IsOpen t d) :
    Owned (t ++ [.opened d] ++ [.closed d]) held where
  closesOpen := by
    rw [closesOpen_closed, closesOpen_opened, isOpen_opened]
    exact ⟨ho.closesOpen, .inl rfl⟩
  isOpen_iff e := (isOpen_borrow hd).trans (ho.isOpen_iff e)
  unique := ho.unique

variable [DecidableEq ι]

/-- A fresh descriptor goes to an owner that holds none. -/
theorem take (ho : Owned t held) (hi : held i = none) (hd : ¬ IsOpen t d) :
    Owned (t ++ [.opened d]) (Function.update held i (some d)) := by
  have hother : ∀ j, held j ≠ some d := fun j hj => hd ((ho.isOpen_iff d).mpr ⟨j, hj⟩)
  refine ⟨closesOpen_opened.mpr ho.closesOpen, ?_, ?_⟩
  · intro e
    rw [isOpen_opened, ho.isOpen_iff]
    constructor
    · rintro (rfl | ⟨j, hj⟩)
      · exact ⟨i, by simp⟩
      · have hji : j ≠ i := by
          rintro rfl
          rw [hi] at hj
          cases hj
        exact ⟨j, by rw [Function.update_of_ne hji, hj]⟩
    · rintro ⟨j, hj⟩
      by_cases hji : j = i
      · subst hji
        exact .inl (by simpa using hj)
      · rw [Function.update_of_ne hji] at hj
        exact .inr ⟨j, hj⟩
  · intro j k e hj hk
    by_cases hji : j = i <;> by_cases hki : k = i
    · rw [hji, hki]
    · subst hji
      rw [Function.update_self, Option.some.injEq] at hj
      rw [Function.update_of_ne hki, ← hj] at hk
      exact absurd hk (hother k)
    · subst hki
      rw [Function.update_self, Option.some.injEq] at hk
      rw [Function.update_of_ne hji, ← hk] at hj
      exact absurd hj (hother j)
    · rw [Function.update_of_ne hji] at hj
      rw [Function.update_of_ne hki] at hk
      exact ho.unique j k e hj hk

/-- An owner gives its descriptor back. -/
theorem release (ho : Owned t held) (hi : held i = some d) :
    Owned (t ++ [.closed d]) (Function.update held i none) := by
  have hopen : IsOpen t d := (ho.isOpen_iff d).mpr ⟨i, hi⟩
  refine ⟨closesOpen_closed.mpr ⟨ho.closesOpen, hopen⟩, ?_, ?_⟩
  · intro e
    rw [isOpen_closed, ho.isOpen_iff]
    constructor
    · rintro ⟨hne, j, hj⟩
      have hji : j ≠ i := by
        rintro rfl
        rw [hi, Option.some.injEq] at hj
        exact hne hj
      exact ⟨j, by rw [Function.update_of_ne hji, hj]⟩
    · rintro ⟨j, hj⟩
      by_cases hji : j = i
      · subst hji
        simp at hj
      · rw [Function.update_of_ne hji] at hj
        refine ⟨?_, j, hj⟩
        rintro rfl
        exact hji (ho.unique j i d hj hi)
  · intro j k e hj hk
    by_cases hji : j = i
    · subst hji
      simp at hj
    · by_cases hki : k = i
      · subst hki
        simp at hk
      · rw [Function.update_of_ne hji] at hj
        rw [Function.update_of_ne hki] at hk
        exact ho.unique j k e hj hk

end Owned
end Descriptors
