import Mathlib.Data.Set.Basic
import Mathlib.Tactic.Common

/-! Bit masks read as sets of bit positions. -/
namespace Mask

variable {w : ℕ} {a b : BitVec w}

def bits (a : BitVec w) : Set ℕ := {i | a.getLsbD i = true}

@[simp] theorem mem_bits {i : ℕ} : i ∈ bits a ↔ a.getLsbD i = true := Iff.rfl

@[simp] theorem bits_zero : bits 0#w = ∅ := by
  ext i
  simp

@[simp] theorem bits_or : bits (a ||| b) = bits a ∪ bits b := by
  ext i
  simp

@[simp] theorem bits_and : bits (a &&& b) = bits a ∩ bits b := by
  ext i
  simp

theorem bits_injective : Function.Injective (bits : BitVec w → Set ℕ) := by
  intro a b h
  refine BitVec.eq_of_getLsbD_eq fun i _ => Bool.eq_iff_iff.mpr ?_
  exact Set.ext_iff.mp h i

theorem bits_subset_iff : bits b ⊆ bits a ↔ a &&& b = b := by
  rw [← Set.inter_eq_right, ← bits_and, bits_injective.eq_iff]

theorem or_eq_right_iff : a ||| b = b ↔ bits a ⊆ bits b := by
  rw [← Set.union_eq_right, ← bits_or, bits_injective.eq_iff]

theorem and_not_eq_zero_iff : a &&& ~~~b = 0#w ↔ bits a ⊆ bits b := by
  rw [← bits_injective.eq_iff, bits_zero, Set.eq_empty_iff_forall_notMem]
  refine forall_congr' fun i => ?_
  by_cases hi : i < w
  · simp [hi]
  · simp [BitVec.getLsbD_of_ge _ _ (Nat.le_of_not_lt hi)]

end Mask
