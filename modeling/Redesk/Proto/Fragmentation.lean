import Mathlib.Algebra.Order.Floor.Div
import Mathlib.Tactic.Common

/-! How many frames a message is split into, and for which messages that number is right. -/
namespace Redesk.Proto

/-- The largest Noise transport message. -/
def kNoiseMessageMax : UInt32 := 65535

def kAeadTagBytes : UInt32 := 16

/-- The size of a frame header on the wire. -/
def frameHeaderSize : UInt32 := 18

/-- What a path leaves for the payload of a frame. -/
def usablePayloadBudget (pathMtuAfterNoise : UInt32) : UInt32 :=
  let overhead := frameHeaderSize + kAeadTagBytes
  if overhead < pathMtuAfterNoise then pathMtuAfterNoise - overhead else 0

/-- The sum is one of 32 bits, and the result is cut to 16. -/
def fragmentCount (totalBytes budget : UInt32) : UInt16 :=
  if budget = 0 then 0
  else if totalBytes = 0 then 1
  else ((totalBytes + budget - 1) / budget).toUInt16

/-- `n` frames hold `total` bytes and no frame is spare; an empty message takes one. -/
structure ExactCount (total budget n : ℕ) : Prop where
  positive : 1 ≤ n
  covers : total ≤ n * budget
  tight : total ≠ 0 → (n - 1) * budget < total

variable {total budget n : ℕ} {totalBytes b : UInt32}

theorem exactCount_iff (hb : 0 < budget) (ht : total ≠ 0) :
    ExactCount total budget n ↔ n = total ⌈/⌉ budget := by
  have hle (k : ℕ) : total ⌈/⌉ budget ≤ k ↔ total ≤ k * budget := by
    rw [ceilDiv_le_iff_le_mul hb, mul_comm]
  have hpos : 0 < total ⌈/⌉ budget := by
    by_contra hzero
    have hnone := (hle 0).mp (Nat.le_of_not_lt hzero)
    omega
  constructor
  · rintro ⟨hone, hcovers, htight⟩
    have hupper := (hle n).mpr hcovers
    have hlower : ¬ total ⌈/⌉ budget ≤ n - 1 := by
      rw [hle]
      exact Nat.not_le.mpr (htight ht)
    omega
  · rintro rfl
    refine ⟨hpos, (hle _).mp le_rfl, fun _ => Nat.not_le.mp ?_⟩
    rw [← hle]
    omega

theorem toNat_fragmentCount (hb : 0 < b.toNat) (ht : totalBytes.toNat ≠ 0) :
    (fragmentCount totalBytes b).toNat =
      (totalBytes.toNat + b.toNat - 1) % 2 ^ 32 / b.toNat % 2 ^ 16 := by
  have hb' : b ≠ 0 := by
    rintro rfl
    exact absurd hb (by decide)
  have ht' : totalBytes ≠ 0 := by
    rintro rfl
    exact ht rfl
  have hsum : (totalBytes + b - 1).toNat = (totalBytes.toNat + b.toNat - 1) % 2 ^ 32 := by
    have hlt := totalBytes.toNat_lt
    have hlt' := b.toNat_lt
    rw [UInt32.toNat_sub, UInt32.toNat_add]
    show (2 ^ 32 - 1 + _) % 2 ^ 32 = _
    omega
  rw [fragmentCount, if_neg hb', if_neg ht', UInt32.toNat_toUInt16, UInt32.toNat_div, hsum]

/-- A sum that wraps loses at least one frame. -/
theorem div_wrapped_lt (hb : 0 < budget) (hlt : budget < 2 ^ 32) (hwrap : 2 ^ 32 ≤ n)
    (hn : n < 2 ^ 33) : n % 2 ^ 32 / budget < n / budget := by
  have hmod : n % 2 ^ 32 = n - 2 ^ 32 := by omega
  calc n % 2 ^ 32 / budget ≤ (n - budget) / budget := Nat.div_le_div_right (by omega)
    _ < n / budget := by
      rw [Nat.div_eq_sub_div hb (by omega : budget ≤ n)]
      exact Nat.lt_succ_self _

/-- The count is exact for an empty message, and else just when the sum does not wrap and the
message takes at most 65535 frames. -/
theorem exactCount_fragmentCount_iff (hb : 0 < b) :
    ExactCount totalBytes.toNat b.toNat (fragmentCount totalBytes b).toNat ↔
      totalBytes = 0 ∨ totalBytes.toNat + b.toNat ≤ 2 ^ 32 ∧
        totalBytes.toNat ≤ 65535 * b.toNat := by
  have hb : 0 < b.toNat := UInt32.lt_iff_toNat_lt.mp hb
  have hlt := totalBytes.toNat_lt
  have hlt' := b.toNat_lt
  by_cases hzero : totalBytes = 0
  · subst hzero
    refine iff_of_true ?_ (.inl rfl)
    have hone : fragmentCount 0 b = 1 := by
      have hne : b ≠ 0 := by
        rintro rfl
        exact absurd hb (by decide)
      rw [fragmentCount, if_neg hne, if_pos rfl]
    rw [hone]
    exact ⟨le_rfl, Nat.zero_le _, fun hne => absurd rfl hne⟩
  have ht : totalBytes.toNat ≠ 0 := fun h => hzero (UInt32.toNat_inj.mp h)
  have hceil : totalBytes.toNat ⌈/⌉ b.toNat = (totalBytes.toNat + b.toNat - 1) / b.toNat :=
    Nat.ceilDiv_eq_add_pred_div _ _
  have hbound : totalBytes.toNat ≤ 65535 * b.toNat ↔ totalBytes.toNat ⌈/⌉ b.toNat ≤ 65535 := by
    rw [ceilDiv_le_iff_le_mul hb, mul_comm]
  rw [exactCount_iff hb ht, toNat_fragmentCount hb ht, or_iff_right hzero, hbound, hceil]
  constructor
  · intro heq
    have hfits : totalBytes.toNat + b.toNat - 1 < 2 ^ 32 := by
      by_contra hwrap
      have hless := div_wrapped_lt (n := totalBytes.toNat + b.toNat - 1) hb hlt' (by omega)
        (by omega)
      have hcut := Nat.mod_le ((totalBytes.toNat + b.toNat - 1) % 2 ^ 32 / b.toNat) (2 ^ 16)
      omega
    rw [Nat.mod_eq_of_lt hfits] at heq
    have hcut := Nat.mod_lt ((totalBytes.toNat + b.toNat - 1) / b.toNat) (Nat.two_pow_pos 16)
    exact ⟨by omega, by omega⟩
  · rintro ⟨hfits, hframes⟩
    rw [Nat.mod_eq_of_lt (by omega : totalBytes.toNat + b.toNat - 1 < 2 ^ 32)]
    exact Nat.mod_eq_of_lt (by omega)

/-- With a header and a tag to spare the budget of a path is not empty. -/
theorem usablePayloadBudget_pos {mtu : UInt32} (h : 34 < mtu) : 0 < usablePayloadBudget mtu := by
  have hlt : 34 < mtu.toNat := UInt32.lt_iff_toNat_lt.mp h
  have hsub : (mtu - 34).toNat = mtu.toNat - 34 := UInt32.toNat_sub_of_le _ _ (le_of_lt hlt)
  rw [usablePayloadBudget]
  show 0 < if (34 : UInt32) < mtu then mtu - 34 else 0
  rw [if_pos h, UInt32.lt_iff_toNat_lt, hsub]
  exact Nat.sub_pos_of_lt hlt

/-- A keyframe of 200 KiB over the usual path. -/
theorem exactCount_keyframe : ExactCount 204800 65501 4 := by
  have hcount : fragmentCount 204800 (usablePayloadBudget kNoiseMessageMax) = 4 := by decide
  have hexact : ExactCount (204800 : UInt32).toNat (usablePayloadBudget kNoiseMessageMax).toNat
      (fragmentCount 204800 (usablePayloadBudget kNoiseMessageMax)).toNat :=
    (exactCount_fragmentCount_iff (usablePayloadBudget_pos (by decide))).mpr (.inr (by decide))
  rw [hcount] at hexact
  exact hexact

/-- A message just short of 4 GiB is split into no frames at all over the usual path. -/
theorem not_exactCount_large : ¬ ExactCount (4294967295 : UInt32).toNat
    (usablePayloadBudget kNoiseMessageMax).toNat
    (fragmentCount 4294967295 (usablePayloadBudget kNoiseMessageMax)).toNat := by
  have hnone : fragmentCount 4294967295 (usablePayloadBudget kNoiseMessageMax) = 0 := by decide
  rw [hnone]
  intro hexact
  exact absurd hexact.positive (by decide)

end Redesk.Proto
