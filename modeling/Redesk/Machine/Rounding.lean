import Redesk.Machine.Binary64

/-! Doubles of either sign, zero and the subnormal ones among them, as the rational numbers that
they stand for. The double nearest to a number does not pass a third one that is a double itself. -/
namespace Binary64
open Float.Model UnpackedFloat

variable {f g : Float} {x y v b : ℚ} {m m₁ m₂ n k : ℕ} {e e₁ e₂ : ℤ} {a : Accuracy}
  {s s₁ s₂ : Sign}

/-- A significand and an exponent as a finite double has them: all 53 digits, or the smallest
exponent. -/
structure Canonical (m : ℕ) (e : ℤ) : Prop where
  digits : m < 2 ^ 53
  low : -1074 ≤ e
  high : e ≤ 971
  full : 2 ^ 52 ≤ m ∨ e = -1074

/-- There is a double that stands for `b`. -/
def OnGrid (b : ℚ) : Prop := ∃ (m : ℕ) (e : ℤ), m < 2 ^ 53 ∧ -1074 ≤ e ∧ e ≤ 971 ∧ b = m * 2 ^ e

def signed (s : Sign) (x : ℚ) : ℚ :=
  match s with
  | .positive => x
  | .negative => -x

def value : UnpackedFloat → Option ℚ
  | .zero _ => some 0
  | .finite s m e _ => some (signed s (m * 2 ^ e))
  | .infinity _ | .notANumber => none

/-- The double is finite and stands for `x`. -/
def Stands (f : Float) (x : ℚ) : Prop := value f.toModel.unpack = some x

theorem onGrid_natCast (n : ℕ) (hn : n < 2 ^ 53) : OnGrid n :=
  ⟨n, 0, hn, by norm_num, by norm_num, by simp⟩

theorem onGrid_two_pow (k : ℕ) (hk : k ≤ 971) : OnGrid (2 ^ k) :=
  ⟨1, k, by norm_num, by omega, by omega, by simp⟩

/-- There are no more doubles than there are words of 64 bits. -/
theorem toBits_injective : Function.Injective fun f : Float => f.toModel.toBits.toNat := by
  rintro ⟨f⟩ ⟨g⟩ hfg
  cases f
  cases g
  have hbits := UInt64.toNat_inj.mp hfg
  dsimp only at hbits
  simp only [hbits]

theorem stands_of_unpack (s : Sign) (hm : 0 < m) (h : f.toModel.unpack = .finite s m e hm) :
    Stands f (signed s (m * 2 ^ e)) := by
  rw [Stands, h]
  rfl

/-- A subnormal double is unpacked as it was packed. -/
theorem unpack_pack_subnormal {hm : 0 < m} (h : m < 2 ^ 52) :
    (pack (.finite s m (-1074) hm)).unpack = .finite s m (-1074) hm := by
  have hlog : m.log2 < 52 := (Nat.log2_lt (by omega)).mpr h
  have hvec : BitVec.ofNat 52 m ≠ 0#52 := by
    intro heq
    have hnat := congrArg BitVec.toNat heq
    rw [BitVec.toNat_ofNat, Nat.mod_eq_of_lt h] at hnat
    simp at hnat
    omega
  unfold Float.Model.unpack Float.Model.pack
  simp only [UnpackedFloat.pack]
  rw [if_neg (by decide), if_neg (by show m.log2 + 1 ≠ 53; omega)]
  simp only [UnpackedFloat.unpack, unpackExponent_packComponents, unpackMantissa_packComponents,
    unpackSign_packComponents, Sign.ofBitVec_toBitVec, if_neg (show 0#11 ≠ -1#11 by decide),
    if_true, dif_neg hvec, BitVec.toNat_ofNat, Nat.mod_eq_of_lt h]
  rfl

theorem unpack_pack_canonical {hm : 0 < m} (hc : Canonical m e) :
    (pack (.finite s m e hm)).unpack = .finite s m e hm := by
  obtain ⟨hdigits, hlow, hhigh, hfull⟩ := hc
  rcases Nat.lt_or_ge m (2 ^ 52) with hlt | hge
  · obtain rfl : e = -1074 := hfull.resolve_left (by omega)
    exact unpack_pack_subnormal hlt
  · exact unpack_pack_finite hge hdigits hlow hhigh

/-- What is unpacked is canonical. -/
theorem canonical_of_unpack {f : Float.Model} {hm : 0 < m} (h : f.unpack = .finite s m e hm) :
    Canonical m e := by
  unfold Float.Model.unpack UnpackedFloat.unpack at h
  dsimp only at h
  have hmant : (@unpackMantissa .binary64 f.toBits.toBitVec).toNat < 2 ^ 52 := BitVec.isLt _
  have hexp : (@unpackExponent .binary64 f.toBits.toBitVec).toNat < 2 ^ 11 := BitVec.isLt _
  split at h
  · split at h <;> cases h
  rename_i hmax
  split at h
  · rename_i hmin
    split at h
    · cases h
    · cases h
      rw [hmin]
      exact ⟨by omega, by decide, by decide, .inr rfl⟩
  · rename_i hmin
    cases h
    have hzero : (@unpackExponent .binary64 f.toBits.toBitVec).toNat ≠ 0 :=
      fun heq => hmin (BitVec.eq_of_toNat_eq heq)
    have htop : (@unpackExponent .binary64 f.toBits.toBitVec).toNat ≠ 2047 :=
      fun heq => hmax (BitVec.eq_of_toNat_eq heq)
    have hbits : (1#1 ++ @unpackMantissa .binary64 f.toBits.toBitVec).toNat =
        2 ^ 52 + (@unpackMantissa .binary64 f.toBits.toBitVec).toNat := by
      rw [BitVec.toNat_append, ← Nat.shiftLeft_add_eq_or_of_lt hmant]
      rfl
    rw [hbits]
    refine ⟨?_, ?_, ?_, .inl (Nat.le_add_right ..)⟩
    · omega
    · show (-1074 : ℤ) ≤ _ - (1023 + 52)
      omega
    · show (_ : ℤ) - (1023 + 52) ≤ 971
      omega

/-- The number `z`, to which `v` was rounded, has its sign and is not above `b`. -/
structure Near (b v z : ℚ) : Prop where
  le : |z| ≤ b
  nonneg : 0 ≤ v → 0 ≤ z
  nonpos : v ≤ 0 → z ≤ 0

/-- What `u` is packed to is `v` rounded. -/
def Rounds (b v : ℚ) (u : UnpackedFloat) : Prop :=
  ∃ z, value (pack u).unpack = some z ∧ Near b v z

theorem abs_signed (s : Sign) (x : ℚ) : |signed s x| = |x| := by
  cases s
  · exact abs_neg x
  · rfl

theorem value_pack_zero (s : Sign) : value (pack (.zero s)).unpack = some 0 := by
  cases s <;> rfl

theorem value_pack_canonical {hm : 0 < m} (hc : Canonical m e) :
    value (pack (.finite s m e hm)).unpack = some (signed s (m * 2 ^ e)) := by
  rw [unpack_pack_canonical hc]
  rfl

theorem rounds_zero (hb : 0 ≤ b) : Rounds b v (.zero s) :=
  ⟨0, value_pack_zero s, by simpa using hb, fun _ => le_rfl, fun _ => le_rfl⟩

/-- The exponent that the significand `m` is shifted to. -/
theorem targetExponent_eq (m : ℕ) (e : ℤ) : Format.binary64.targetExponent (totalExponent m e) =
    max ((m.log2 : ℤ) + 1 + e - 53) (-1074) := rfl

/-- Digits that are below the target exponent are dropped. -/
theorem shiftToTargetExponent_of_le (ht : e ≤ max ((m.log2 : ℤ) + 1 + e - 53) (-1074)) :
    ∃ k : ℕ, e + k = max ((m.log2 : ℤ) + 1 + e - 53) (-1074) ∧
      shiftToTargetExponent .binary64 m e a =
        (ExtendedMantissa.ofMantissaAndAccuracy m a >>> k, e + k) := by
  refine ⟨(max ((m.log2 : ℤ) + 1 + e - 53) (-1074) - e).toNat, by omega, ?_⟩
  rw [shiftToTargetExponent, targetExponent_eq, shiftToExponent]

/-- What is left of a significand has 53 digits at most, and fewer at the smallest exponent only. -/
theorem div_two_pow_digits (he : e + k = max ((m.log2 : ℤ) + 1 + e - 53) (-1074)) :
    m / 2 ^ k < 2 ^ 53 ∧ (2 ^ 52 ≤ m / 2 ^ k ∨ e + k = -1074) := by
  rcases Nat.eq_zero_or_pos m with rfl | hm
  · rw [Nat.log2_zero] at he
    rw [Nat.zero_div]
    exact ⟨by norm_num, .inr (by omega)⟩
  obtain ⟨hlo, hhi⟩ := (Nat.log2_eq_iff hm.ne').mp rfl
  constructor
  · rw [Nat.div_lt_iff_lt_mul (by positivity), ← pow_add]
    exact hhi.trans_le (Nat.pow_le_pow_right (by decide) (by omega))
  · rcases le_or_gt (m.log2 : ℤ) (52 + k - 1) with hshort | hlong
    · exact .inr (by omega)
    · refine .inl ?_
      rw [Nat.le_div_iff_mul_le (by positivity), ← pow_add]
      exact (Nat.pow_le_pow_right (by decide) (by omega)).trans hlo

/-- A significand that is short enough is not shifted. -/
theorem shiftToTargetExponent_short (h : m < 2 ^ 53) (he : -1074 ≤ e) :
    shiftToTargetExponent .binary64 m e .exact = (⟨m, false, false⟩, e) := by
  have hlog : m.log2 ≤ 52 := by
    rcases Nat.eq_zero_or_pos m with rfl | hm
    · simp
    · exact Nat.le_of_lt_succ ((Nat.log2_lt hm.ne').mpr h)
  have hshift : (max ((m.log2 : ℤ) + 1 + e - 53) (-1074) - e).toNat = 0 := by omega
  rw [shiftToTargetExponent, targetExponent_eq, shiftToExponent, hshift, Nat.cast_zero, add_zero]
  rfl

theorem two_zpow_pos (e : ℤ) : (0 : ℚ) < 2 ^ e := zpow_pos two_pos e

/-- A number below a double, with its digits: rounded up to the next digit it does not pass the
double. -/
theorem succ_mul_le (hd : Between m e v) (hfull : 2 ^ 52 ≤ m ∨ e = -1074) (h : m < 2 ^ 53)
    (hn : n ≤ m + 1) (h₁ : m₁ < 2 ^ 53) (hlow : -1074 ≤ e₁) (hvb : v < m₁ * 2 ^ e₁) :
    e ≤ e₁ ∧ (n * 2 ^ e : ℚ) ≤ m₁ * 2 ^ e₁ := by
  have hle : e ≤ e₁ := by
    rcases hfull with hfull | rfl
    · have hlt : (2 : ℚ) ^ (52 + e) < 2 ^ (53 + e₁) := by
        calc (2 : ℚ) ^ (52 + e) ≤ v := (hd.unit hfull h).1
          _ < m₁ * 2 ^ e₁ := hvb
          _ ≤ (2 ^ 53 : ℕ) * 2 ^ e₁ := by
            gcongr
          _ = 2 ^ (53 + e₁) := by
            rw [zpow_add₀ two_ne_zero]
            norm_num
      have hexp := (zpow_lt_zpow_iff_right₀ (one_lt_two : (1 : ℚ) < 2)).mp hlt
      omega
    · exact hlow
  obtain ⟨j, rfl⟩ : ∃ j : ℕ, e₁ = e + j := ⟨(e₁ - e).toNat, by omega⟩
  have hgrid : (m₁ * 2 ^ (e + j) : ℚ) = (m₁ * 2 ^ j : ℕ) * 2 ^ e := by
    rw [zpow_add₀ two_ne_zero, zpow_natCast]
    push_cast
    ring
  rw [hgrid] at hvb ⊢
  have hlt : (m : ℚ) < (m₁ * 2 ^ j : ℕ) :=
    lt_of_mul_lt_mul_right (hd.floor.trans_lt hvb) (two_zpow_pos e).le
  have hnat : n ≤ m₁ * 2 ^ j := hn.trans (by exact_mod_cast hlt)
  exact ⟨hle, mul_le_mul_of_nonneg_right (by exact_mod_cast hnat) (two_zpow_pos e).le⟩

theorem rounds_canonical {hm : 0 < m} (hc : Canonical m e) (hv : 0 < v)
    (hb : (m * 2 ^ e : ℚ) ≤ b) : Rounds b (signed s v) (.finite s m e hm) := by
  have hpos : (0 : ℚ) ≤ m * 2 ^ e := mul_nonneg (Nat.cast_nonneg m) (two_zpow_pos e).le
  refine ⟨_, value_pack_canonical hc, ?_, ?_, ?_⟩
  · rw [abs_signed, abs_of_nonneg hpos]
    exact hb
  · cases s
    · exact fun hneg => absurd hneg (neg_neg_of_pos hv).not_ge
    · exact fun _ => hpos
  · cases s
    · exact fun _ => neg_nonpos_of_nonneg hpos
    · exact fun hneg => absurd hneg hv.not_ge

theorem roundWithAccuracy_of_shift_zero {em em' : ExtendedMantissa} {e' e'' : ℤ}
    (h : shiftToTargetExponent .binary64 m e a = (em, e'))
    (h' : shiftToTargetExponent .binary64 em.roundedMantissa e' .exact = (em', e''))
    (hzero : em'.mantissa = 0) : roundWithAccuracy .binary64 s m e a = .zero s := by
  simp only [roundWithAccuracy, h, h', dif_pos hzero]

/-- Rounding does not pass a double. -/
theorem rounds_roundWithAccuracy (hv0 : 0 < v) (hv : Between m e v)
    (ht : e ≤ max ((m.log2 : ℤ) + 1 + e - 53) (-1074)) (hb : OnGrid b) (hvb : v < b) :
    Rounds b (signed s v) (roundWithAccuracy .binary64 s m e a) := by
  have hb0 : 0 ≤ b := hv0.le.trans hvb.le
  obtain ⟨m₁, e₁, h₁, hlow, hhigh, rfl⟩ := hb
  obtain ⟨k, hk, hshift⟩ := shiftToTargetExponent_of_le (a := a) ht
  obtain ⟨hdigits, hfull⟩ := div_two_pow_digits hk
  have hlow' : -1074 ≤ e + k := by omega
  obtain ⟨hfloor, hceil⟩ := roundedMantissa_mem (ExtendedMantissa.ofMantissaAndAccuracy m a >>> k)
  obtain ⟨n, hn⟩ : ∃ n,
      (ExtendedMantissa.ofMantissaAndAccuracy m a >>> k).roundedMantissa = n := ⟨_, rfl⟩
  rw [mantissa_shiftRight, mantissa_ofMantissaAndAccuracy, hn] at hfloor hceil
  obtain ⟨hexp, hle⟩ := succ_mul_le (hv.shift k) hfull hdigits hceil h₁ hlow hvb
  rcases Nat.lt_or_ge n (2 ^ 53) with hlt | hge
  · have hagain : shiftToTargetExponent .binary64 (ExtendedMantissa.ofMantissaAndAccuracy m a >>>
        k).roundedMantissa (e + k) .exact = (⟨n, false, false⟩, e + k) := by
      rw [hn]
      exact shiftToTargetExponent_short hlt hlow'
    rcases Nat.eq_zero_or_pos n with hzero | hpos
    · rw [roundWithAccuracy_of_shift_zero hshift hagain hzero]
      exact rounds_zero hb0
    · rw [roundWithAccuracy_of_shift hshift hagain hpos]
      refine rounds_canonical ⟨hlt, hlow', hexp.trans hhigh, ?_⟩ hv0 hle
      exact hfull.imp (fun h => h.trans hfloor) id
  · -- all digits were ones
    obtain rfl : n = 2 ^ 53 := by omega
    have hlog : (2 ^ 53 : ℕ).log2 = 52 + 1 := Nat.log2_two_pow
    have hagain : shiftToTargetExponent .binary64 (ExtendedMantissa.ofMantissaAndAccuracy m a >>>
        k).roundedMantissa (e + k) .exact = (⟨2 ^ 52, false, false⟩, e + k + 1) := by
      rw [hn]
      exact shiftToTargetExponent_eq (a := .exact) hlog (by push_cast; omega)
    have hvalue : ((2 ^ 53 : ℕ) * 2 ^ (e + k) : ℚ) = (2 ^ 52 : ℕ) * 2 ^ (e + k + 1) := by
      rw [zpow_add_one₀ two_ne_zero]
      push_cast
      ring
    have hstrict : e + k < e₁ := by
      have hlt : ((2 ^ 53 : ℕ) * 2 ^ (e + k) : ℚ) < (2 ^ 53 : ℕ) * 2 ^ e₁ := by
        refine hle.trans_lt ?_
        gcongr
      have hpow := lt_of_mul_lt_mul_left hlt (Nat.cast_nonneg _)
      exact (zpow_lt_zpow_iff_right₀ (one_lt_two : (1 : ℚ) < 2)).mp hpow
    rw [roundWithAccuracy_of_shift hshift hagain (by norm_num)]
    rw [hvalue] at hle
    exact rounds_canonical ⟨by norm_num, by omega, by omega, .inl le_rfl⟩ hv0 hle

theorem log2_mul_two_pow (hm : m ≠ 0) (k : ℕ) : (m * 2 ^ k).log2 = m.log2 + k := by
  obtain ⟨hlo, hhi⟩ := (Nat.log2_eq_iff hm).mp rfl
  rw [Nat.log2_eq_iff (Nat.mul_ne_zero hm (by positivity))]
  constructor
  · rw [pow_add]
    exact Nat.mul_le_mul_right _ hlo
  · rw [Nat.add_right_comm, pow_add]
    exact Nat.mul_lt_mul_of_pos_right hhi (by positivity)

/-- Digits that are put behind a significand change nothing about the number. -/
theorem mul_two_pow_zpow (m k : ℕ) (e : ℤ) : ((m * 2 ^ k : ℕ) : ℚ) * 2 ^ (e - k) = m * 2 ^ e := by
  have hexp : (2 : ℚ) ^ e = 2 ^ k * 2 ^ (e - k) := by
    rw [← zpow_natCast, ← zpow_add₀ two_ne_zero, add_sub_cancel]
  rw [hexp]
  push_cast
  ring

theorem between_self (m : ℕ) (e : ℤ) : Between m e (m * 2 ^ e) := by
  refine ⟨le_rfl, ?_⟩
  rw [add_one_mul]
  exact lt_add_of_pos_right _ (two_zpow_pos e)

theorem rounds_round (hm : m ≠ 0) (hb : OnGrid b) (hvb : (m * 2 ^ e : ℚ) < b) :
    Rounds b (signed s (m * 2 ^ e)) (UnpackedFloat.round .binary64 s m e) := by
  obtain ⟨k, hk⟩ : ∃ k, (e - max ((m.log2 : ℤ) + 1 + e - 53) (-1074)).toNat = k := ⟨_, rfl⟩
  have hround : UnpackedFloat.round .binary64 s m e =
      roundWithAccuracy .binary64 s (m * 2 ^ k) (e - k) .exact := by
    simp only [UnpackedFloat.round, targetExponent_eq, decreaseExponent, hk, Nat.shiftLeft_eq]
  have hpos : (0 : ℚ) < m * 2 ^ e := mul_pos (Nat.cast_pos.mpr (Nat.pos_of_ne_zero hm))
    (two_zpow_pos e)
  rw [← mul_two_pow_zpow m k e] at hpos hvb ⊢
  rw [hround]
  apply rounds_roundWithAccuracy hpos (between_self _ _) ?_ hb hvb
  · rw [log2_mul_two_pow hm]
    push_cast
    omega

theorem rounds_normalize {M : ℤ} (hb : OnGrid b) (hvb : |(M * 2 ^ e : ℚ)| < b) :
    Rounds b (M * 2 ^ e) (UnpackedFloat.normalize .binary64 M e s) := by
  have hb0 : 0 ≤ b := (abs_nonneg _).trans hvb.le
  rw [abs_mul, abs_of_pos (two_zpow_pos e)] at hvb
  rcases lt_trichotomy M 0 with hneg | rfl | hpos
  · obtain ⟨n, rfl⟩ : ∃ n : ℕ, M = -n := ⟨M.natAbs, by omega⟩
    have hcmp : compare (-(n : ℤ)) 0 = .lt := compare_lt_iff_lt.mpr hneg
    have hnat : (-(-(n : ℤ))).toNat = n := by omega
    rw [UnpackedFloat.normalize, hcmp]
    show Rounds b _ (UnpackedFloat.round .binary64 .negative (-(-(n : ℤ))).toNat e)
    rw [hnat]
    have hvalue : ((-(n : ℤ) : ℤ) * 2 ^ e : ℚ) = signed .negative (n * 2 ^ e) := by
      show _ = -(n * 2 ^ e : ℚ)
      push_cast
      ring
    rw [hvalue]
    refine rounds_round (by omega) hb ?_
    simpa using hvb
  · exact rounds_zero hb0
  · obtain ⟨n, rfl⟩ : ∃ n : ℕ, M = n := ⟨M.natAbs, by omega⟩
    have hcmp : compare (n : ℤ) 0 = .gt := compare_gt_iff_gt.mpr hpos
    rw [UnpackedFloat.normalize, hcmp]
    refine rounds_round (s := .positive) (by omega) hb ?_
    simpa using hvb

/-- A double that stands for a number is zero, or has a sign, a significand and an exponent. -/
theorem Stands.cases (hf : Stands f x) : (∃ s, f.toModel.unpack = .zero s ∧ x = 0) ∨
    ∃ s m e hm, f.toModel.unpack = .finite s m e hm ∧ Canonical m e ∧ x = signed s (m * 2 ^ e) := by
  unfold Stands at hf
  cases hu : f.toModel.unpack with
  | infinity s => rw [hu] at hf; cases hf
  | notANumber => rw [hu] at hf; cases hf
  | zero s =>
    rw [hu] at hf
    exact .inl ⟨s, rfl, (Option.some.inj hf).symm⟩
  | finite s m e hm =>
    rw [hu] at hf
    exact .inr ⟨s, m, e, hm, rfl, canonical_of_unpack hu, (Option.some.inj hf).symm⟩

theorem Stands.onGrid (hf : Stands f x) (hx : 0 ≤ x) : OnGrid x := by
  rcases hf.cases with ⟨s, -, rfl⟩ | ⟨s, m, e, hm, -, hc, rfl⟩
  · exact ⟨0, 0, by norm_num, by norm_num, by norm_num, by simp⟩
  · cases s
    · have hneg : signed .negative (m * 2 ^ e : ℚ) < 0 := neg_neg_of_pos (by positivity)
      exact absurd hx hneg.not_ge
    · exact ⟨m, e, hc.digits, hc.low, hc.high, rfl⟩

/-- The result of an operation, whose exact value is `v`. -/
def Approx (b v : ℚ) (f : Float) : Prop := ∃ z, Stands f z ∧ Near b v z

theorem signed_mul (s₁ s₂ : Sign) (x y : ℚ) :
    signed (s₁ * s₂) (x * y) = signed s₁ x * signed s₂ y := by
  cases s₁ <;> cases s₂
  · exact (neg_mul_neg x y).symm
  · exact (neg_mul x y).symm
  · exact (mul_neg x y).symm
  · rfl

/-- The product of two significands has digits enough. -/
theorem Canonical.mul (h₁ : Canonical m₁ e₁) (h₂ : Canonical m₂ e₂) (hm₁ : 0 < m₁) (hm₂ : 0 < m₂) :
    e₁ + e₂ ≤ max (((m₁ * m₂).log2 : ℤ) + 1 + (e₁ + e₂) - 53) (-1074) := by
  have hlong (h : 2 ^ 52 ≤ m₁ * m₂) :
      e₁ + e₂ ≤ max (((m₁ * m₂).log2 : ℤ) + 1 + (e₁ + e₂) - 53) (-1074) := by
    have hlog := (Nat.le_log2 (Nat.mul_ne_zero hm₁.ne' hm₂.ne')).mpr h
    omega
  rcases h₁.full with hfull | rfl
  · exact hlong (hfull.trans (Nat.le_mul_of_pos_right m₁ hm₂))
  · rcases h₂.full with hfull | rfl
    · exact hlong (hfull.trans (Nat.le_mul_of_pos_left m₂ hm₁))
    · omega

theorem Stands.mul (hf : Stands f x) (hg : Stands g y) (hb : OnGrid b) (h : |x * y| < b) :
    Approx b (x * y) (f * g) := by
  have hb0 : 0 ≤ b := (abs_nonneg _).trans h.le
  show Rounds b (x * y) (UnpackedFloat.mul .binary64 f.toModel.unpack g.toModel.unpack)
  rcases hf.cases with ⟨s₁, hu, rfl⟩ | ⟨s₁, m₁, e₁, hm₁, hu, hc₁, rfl⟩ <;>
    rcases hg.cases with ⟨s₂, hw, rfl⟩ | ⟨s₂, m₂, e₂, hm₂, hw, hc₂, rfl⟩ <;> rw [hu, hw]
  · exact rounds_zero hb0
  · exact rounds_zero hb0
  · exact rounds_zero hb0
  · rw [← signed_mul] at h ⊢
    rw [abs_signed, abs_of_nonneg (by positivity)] at h
    have hvalue : (m₁ * 2 ^ e₁ * (m₂ * 2 ^ e₂) : ℚ) = (m₁ * m₂ : ℕ) * 2 ^ (e₁ + e₂) := by
      rw [zpow_add₀ two_ne_zero]
      push_cast
      ring
    rw [hvalue] at h ⊢
    exact rounds_roundWithAccuracy (by positivity) (between_self _ _) (hc₁.mul hc₂ hm₁ hm₂) hb h

theorem signed_div (s₁ s₂ : Sign) (x y : ℚ) :
    signed (s₁ / s₂) (x / y) = signed s₁ x / signed s₂ y := by
  cases s₁ <;> cases s₂
  · exact (neg_div_neg_eq x y).symm
  · exact (neg_div y x).symm
  · exact (div_neg x).symm
  · rfl

/-- A quotient of significands has digits enough. -/
theorem le_log2_div (hm₁ : m₁ ≠ 0) (hm₂ : m₂ ≠ 0) (hk : m₂.log2 + 53 ≤ m₁.log2 + k) :
    52 ≤ (m₁ * 2 ^ k / m₂).log2 := by
  obtain ⟨hlo, -⟩ := (Nat.log2_eq_iff hm₁).mp rfl
  obtain ⟨-, hhi⟩ := (Nat.log2_eq_iff hm₂).mp rfl
  have hdigits : 2 ^ 52 ≤ m₁ * 2 ^ k / m₂ := by
    rw [Nat.le_div_iff_mul_le (Nat.pos_of_ne_zero hm₂)]
    calc 2 ^ 52 * m₂ ≤ 2 ^ 52 * 2 ^ (m₂.log2 + 1) := Nat.mul_le_mul_left _ hhi.le
      _ = 2 ^ (52 + (m₂.log2 + 1)) := (pow_add ..).symm
      _ ≤ 2 ^ (m₁.log2 + k) := Nat.pow_le_pow_right (by decide) (by omega)
      _ = 2 ^ m₁.log2 * 2 ^ k := pow_add ..
      _ ≤ m₁ * 2 ^ k := Nat.mul_le_mul_right _ hlo
  exact (Nat.le_log2 (by omega)).mpr hdigits

/-- A division shifts the first significand until the quotient has digits enough. -/
theorem divCore_of_shift (m₁ m₂ : ℕ) (e₁ e₂ : ℤ) :
    ∃ k : ℕ, divCore .binary64 m₁ e₁ m₂ e₂ =
        (m₁ * 2 ^ k / m₂, e₁ - e₂ - k, accuracyOfFraction (m₁ * 2 ^ k % m₂) m₂) ∧
      (e₁ - e₂ - k ≤ -1074 ∨ m₂.log2 + 53 ≤ m₁.log2 + k) := by
  have htarget : Format.binary64.targetExponent (totalExponent m₁ e₁ - totalExponent m₂ e₂) =
      max ((m₁.log2 + 1 + e₁ : ℤ) - (m₂.log2 + 1 + e₂) - 53) (-1074) := rfl
  obtain ⟨k, hk⟩ : ∃ k, (e₁ - e₂ - min (e₁ - e₂)
      (max ((m₁.log2 + 1 + e₁ : ℤ) - (m₂.log2 + 1 + e₂) - 53) (-1074))).toNat = k := ⟨_, rfl⟩
  refine ⟨k, ?_, by omega⟩
  simp only [divCore, htarget, hk, Nat.shiftLeft_eq]
  congr 2
  omega

theorem Stands.div (hf : Stands f x) (hg : Stands g y) (hy : y ≠ 0) (hb : OnGrid b)
    (h : |x / y| < b) : Approx b (x / y) (f / g) := by
  have hb0 : 0 ≤ b := (abs_nonneg _).trans h.le
  show Rounds b (x / y) (UnpackedFloat.div .binary64 f.toModel.unpack g.toModel.unpack)
  rcases hg.cases with ⟨s₂, hw, rfl⟩ | ⟨s₂, m₂, e₂, hm₂, hw, hc₂, rfl⟩
  · exact absurd rfl hy
  rcases hf.cases with ⟨s₁, hu, rfl⟩ | ⟨s₁, m₁, e₁, hm₁, hu, hc₁, rfl⟩ <;> rw [hu, hw]
  · exact rounds_zero hb0
  · rw [← signed_div] at h ⊢
    rw [abs_signed, abs_of_nonneg (by positivity)] at h
    obtain ⟨k, hcore, hdigits⟩ := divCore_of_shift m₁ m₂ e₁ e₂
    simp only [UnpackedFloat.div, hcore]
    refine rounds_roundWithAccuracy (by positivity) (between_div e₁ e₂ k hm₂) ?_ hb h
    rcases hdigits with hlow | hdigits
    · omega
    · have hlog := le_log2_div hm₁.ne' hm₂.ne' hdigits
      omega

theorem rounds_self {hm : 0 < m} (hc : Canonical m e) (h : |signed s (m * 2 ^ e)| < b) :
    Rounds b (signed s (m * 2 ^ e)) (.finite s m e hm) := by
  rw [abs_signed, abs_of_nonneg (by positivity)] at h
  exact rounds_canonical hc (by positivity) h.le

/-- A significand at a lower exponent. -/
theorem apply_shiftLeft (s : Sign) (m : ℕ) (h : e₁ ≤ e) :
    ((s.apply (m <<< (e - e₁).toNat : ℕ) : ℤ) : ℚ) * 2 ^ e₁ = signed s (m * 2 ^ e) := by
  obtain ⟨k, rfl⟩ : ∃ k : ℕ, e = e₁ + k := ⟨(e - e₁).toNat, by omega⟩
  have hk : (e₁ + k - e₁).toNat = k := by omega
  have hvalue := mul_two_pow_zpow m k (e₁ + k)
  rw [add_sub_cancel_right] at hvalue
  rw [hk, Nat.shiftLeft_eq, ← hvalue]
  cases s
  · show ((-(m * 2 ^ k : ℕ) : ℤ) : ℚ) * 2 ^ e₁ = -(_)
    push_cast
    ring
  · rfl

theorem Stands.add (hf : Stands f x) (hg : Stands g y) (hb : OnGrid b) (h : |x + y| < b) :
    Approx b (x + y) (f + g) := by
  have hb0 : 0 ≤ b := (abs_nonneg _).trans h.le
  show Rounds b (x + y) (UnpackedFloat.add .binary64 f.toModel.unpack g.toModel.unpack)
  rcases hf.cases with ⟨s₁, hu, rfl⟩ | ⟨s₁, m₁, e₁, hm₁, hu, hc₁, rfl⟩ <;>
    rcases hg.cases with ⟨s₂, hw, rfl⟩ | ⟨s₂, m₂, e₂, hm₂, hw, hc₂, rfl⟩ <;> rw [hu, hw]
  · rw [UnpackedFloat.add]
    split <;> exact rounds_zero hb0
  · rw [zero_add] at h ⊢
    exact rounds_self hc₂ h
  · rw [add_zero] at h ⊢
    exact rounds_self hc₁ h
  · rw [← apply_shiftLeft s₁ m₁ (min_le_left e₁ e₂), ← apply_shiftLeft s₂ m₂ (min_le_right e₁ e₂),
      ← add_mul, ← Int.cast_add] at h ⊢
    exact rounds_normalize hb h

theorem signed_neg (s : Sign) (x : ℚ) : signed (-s) x = -signed s x := by
  cases s
  · exact (neg_neg x).symm
  · rfl

theorem Stands.sub (hf : Stands f x) (hg : Stands g y) (hb : OnGrid b) (h : |x - y| < b) :
    Approx b (x - y) (f - g) := by
  have hb0 : 0 ≤ b := (abs_nonneg _).trans h.le
  show Rounds b (x - y) (UnpackedFloat.sub .binary64 f.toModel.unpack g.toModel.unpack)
  rcases hf.cases with ⟨s₁, hu, rfl⟩ | ⟨s₁, m₁, e₁, hm₁, hu, hc₁, rfl⟩ <;>
    rcases hg.cases with ⟨s₂, hw, rfl⟩ | ⟨s₂, m₂, e₂, hm₂, hw, hc₂, rfl⟩ <;> rw [hu, hw]
  · rw [UnpackedFloat.sub]
    split <;> exact rounds_zero hb0
  · rw [zero_sub, ← signed_neg] at h ⊢
    exact rounds_self hc₂ h
  · rw [sub_zero] at h ⊢
    exact rounds_self hc₁ h
  · rw [← apply_shiftLeft s₁ m₁ (min_le_left e₁ e₂), ← apply_shiftLeft s₂ m₂ (min_le_right e₁ e₂),
      ← sub_mul, ← Int.cast_sub] at h ⊢
    exact rounds_normalize hb h

theorem approx_toFloat (n : UInt64) (hb : OnGrid b) (h : (n.toNat : ℚ) < b) :
    Approx b n.toNat n.toFloat := by
  have hvalue : ((n.toNat : ℤ) * 2 ^ (0 : ℤ) : ℚ) = n.toNat := by simp
  rw [← hvalue]
  show Rounds b _ (UnpackedFloat.normalize .binary64 n.toNat 0 .positive)
  refine rounds_normalize hb ?_
  rw [hvalue, Nat.abs_cast]
  exact h

/-- A power of two less is a double again, unless the digits end above it. -/
theorem Stands.onGrid_sub_two_pow (hf : Stands f x) (hlow : 2 ^ k ≤ x) (hhigh : x < 2 ^ (53 + k)) :
    OnGrid (x - 2 ^ k) := by
  have hpow : (0 : ℚ) < 2 ^ k := by positivity
  rcases hf.cases with ⟨s, -, rfl⟩ | ⟨s, m, e, hm, -, ⟨hdigits, hlow', hhigh', hfull⟩, rfl⟩
  · exact absurd hlow hpow.not_ge
  cases s
  · have hneg : signed .negative (m * 2 ^ e : ℚ) < 0 := neg_neg_of_pos (by positivity)
    linarith
  change (2 ^ k : ℚ) ≤ m * 2 ^ e at hlow
  change (m * 2 ^ e : ℚ) < 2 ^ (53 + k) at hhigh
  show OnGrid (m * 2 ^ e - 2 ^ k)
  have he : e ≤ k := by
    rcases hfull with hfull | rfl
    · have hlt : (2 : ℚ) ^ (52 + e) < 2 ^ (53 + k : ℤ) := by
        calc (2 : ℚ) ^ (52 + e) = (2 ^ 52 : ℕ) * 2 ^ e := by
              rw [zpow_add₀ two_ne_zero]
              norm_num
          _ ≤ m * 2 ^ e := by gcongr
          _ < 2 ^ (53 + k) := hhigh
          _ = 2 ^ (53 + k : ℤ) := by exact_mod_cast rfl
      have hexp := (zpow_lt_zpow_iff_right₀ (one_lt_two : (1 : ℚ) < 2)).mp hlt
      omega
    · omega
  obtain ⟨i, hi⟩ : ∃ i : ℕ, (k : ℤ) = i + e := ⟨(k - e).toNat, by omega⟩
  have hunit : (2 ^ k : ℚ) = (2 ^ i : ℕ) * 2 ^ e := by
    rw [← zpow_natCast, hi, zpow_add₀ two_ne_zero]
    norm_num
  rw [hunit] at hlow ⊢
  have hle : 2 ^ i ≤ m := by
    exact_mod_cast le_of_mul_le_mul_right hlow (two_zpow_pos e)
  refine ⟨m - 2 ^ i, e, (Nat.sub_le ..).trans_lt hdigits, hlow', hhigh', ?_⟩
  rw [Nat.cast_sub hle]
  ring

/-- Significands and exponents compare as the numbers do. -/
theorem Canonical.lt_iff (h₁ : Canonical m₁ e₁) (h₂ : Canonical m₂ e₂) :
    e₁ < e₂ ∨ e₁ = e₂ ∧ m₁ < m₂ ↔ (m₁ * 2 ^ e₁ : ℚ) < m₂ * 2 ^ e₂ := by
  -- a larger exponent outweighs any significand
  have hexp {m m' : ℕ} {e e' : ℤ} (h : Canonical m e) (h' : Canonical m' e') (he : e < e') :
      (m * 2 ^ e : ℚ) < m' * 2 ^ e' := by
    have hfull : 2 ^ 52 ≤ m' := h'.full.resolve_right (by have := h.low; omega)
    calc (m * 2 ^ e : ℚ) < (2 ^ 53 : ℕ) * 2 ^ e := by
          gcongr
          exact_mod_cast h.digits
      _ = (2 ^ 52 : ℕ) * 2 ^ (e + 1) := by
        rw [zpow_add_one₀ two_ne_zero]
        push_cast
        ring
      _ ≤ m' * 2 ^ e' := by
        gcongr
        · exact one_le_two
        · exact he
  rcases lt_trichotomy e₁ e₂ with he | rfl | he
  · exact iff_of_true (.inl he) (hexp h₁ h₂ he)
  · rw [mul_lt_mul_iff_left₀ (two_zpow_pos e₁), Nat.cast_lt]
    simp
  · exact iff_of_false (by omega) (hexp h₂ h₁ he).not_gt

/-- Doubles compare as the numbers that they stand for. -/
theorem Stands.lt_iff (hf : Stands f x) (hg : Stands g y) : f < g ↔ x < y := by
  have hpos {m : ℕ} {e : ℤ} (hm : 0 < m) : (0 : ℚ) < m * 2 ^ e :=
    mul_pos (Nat.cast_pos.mpr hm) (two_zpow_pos e)
  rw [lt_iff_compare]
  rcases hf.cases with ⟨s₁, hu, rfl⟩ | ⟨s₁, m₁, e₁, hm₁, hu, hc₁, rfl⟩ <;>
    rcases hg.cases with ⟨s₂, hw, rfl⟩ | ⟨s₂, m₂, e₂, hm₂, hw, hc₂, rfl⟩ <;> rw [hu, hw]
  · exact iff_of_false (by simp [UnpackedFloat.compare]) (lt_irrefl 0)
  · cases s₂
    · exact iff_of_false (by simp [UnpackedFloat.compare]) (neg_neg_of_pos (hpos hm₂)).not_gt
    · exact iff_of_true rfl (hpos hm₂)
  · cases s₁
    · exact iff_of_true rfl (neg_neg_of_pos (hpos hm₁))
    · exact iff_of_false (by simp [UnpackedFloat.compare]) (hpos hm₁).not_gt
  · cases s₁ <;> cases s₂
    · rw [UnpackedFloat.compare, Option.some_inj, Ordering.swap_eq_lt, Ordering.then_eq_gt,
        compare_gt_iff_gt, compare_eq_iff_eq, compare_gt_iff_gt, eq_comm]
      exact (hc₂.lt_iff hc₁).trans neg_lt_neg_iff.symm
    · exact iff_of_true rfl ((neg_neg_of_pos (hpos hm₁)).trans (hpos hm₂))
    · exact iff_of_false (by simp [UnpackedFloat.compare])
        ((neg_neg_of_pos (hpos hm₂)).trans (hpos hm₁)).not_gt
    · rw [UnpackedFloat.compare, Option.some_inj, Ordering.then_eq_lt, compare_lt_iff_lt,
        compare_eq_iff_eq, compare_lt_iff_lt]
      exact hc₁.lt_iff hc₂

/-- A conversion to an integer does not add to the number. -/
theorem Stands.abs_toInt32_le (hf : Stands f x) (hn : n < 2 ^ 31) (h : |x| ≤ n) :
    |f.toModel.toInt32.toInt| ≤ n := by
  obtain ⟨i, hi, hle⟩ : ∃ i : ℤ, f.toModel.toInt32 = Int32.ofIntClamp i ∧ |i| ≤ n := by
    rcases hf.cases with ⟨s, hu, rfl⟩ | ⟨s, m, e, hm, hu, hc, rfl⟩
    · refine ⟨0, ?_, by simp⟩
      show UnpackedFloat.toInt32 f.toModel.unpack = _
      rw [hu]
      rfl
    · refine ⟨s.apply ⌊(m * 2 ^ e : ℚ)⌋₊, ?_, ?_⟩
      · show UnpackedFloat.toInt32 f.toModel.unpack = _
        rw [hu, UnpackedFloat.toInt32, toInt, roundToInt_eq]
      · rw [abs_signed, abs_of_nonneg (by positivity)] at h
        have hfloor : ⌊(m * 2 ^ e : ℚ)⌋₊ ≤ n := Nat.floor_le_of_le h
        cases s
        · show |(-(⌊(m * 2 ^ e : ℚ)⌋₊ : ℤ))| ≤ n
          rw [abs_neg, Nat.abs_cast]
          exact_mod_cast hfloor
        · show |(⌊(m * 2 ^ e : ℚ)⌋₊ : ℤ)| ≤ n
          rw [Nat.abs_cast]
          exact_mod_cast hfloor
  have hbounds := abs_le.mp hle
  rw [hi, Int32.toInt_ofIntClamp]
  · exact hle
  · show (-2147483648 : ℤ) ≤ i
    omega
  · show i ≤ 2147483647
    omega

/-- The double is finite, and its size is at most `n`. -/
def Small (n : ℕ) (f : Float) : Prop := ∃ x, Stands f x ∧ |x| ≤ n

section Small
variable {n₁ n₂ : ℕ}

theorem Approx.small (ha : Approx n v f) : Small n f := by
  obtain ⟨z, hz, hnear⟩ := ha
  exact ⟨z, hz, hnear.le⟩

theorem Small.mul (hf : Small n₁ f) (hg : Small n₂ g) (hn : n₁ * n₂ + 1 < 2 ^ 53) :
    Small (n₁ * n₂ + 1) (f * g) := by
  obtain ⟨x, hx, hxn⟩ := hf
  obtain ⟨y, hy, hyn⟩ := hg
  refine Approx.small (hx.mul hy (onGrid_natCast _ hn) ?_)
  calc |x * y| = |x| * |y| := abs_mul x y
    _ ≤ n₁ * n₂ := mul_le_mul hxn hyn (abs_nonneg y) (Nat.cast_nonneg n₁)
    _ < (n₁ * n₂ + 1 : ℕ) := by
      push_cast
      exact lt_add_one _

theorem Small.add (hf : Small n₁ f) (hg : Small n₂ g) (hn : n₁ + n₂ + 1 < 2 ^ 53) :
    Small (n₁ + n₂ + 1) (f + g) := by
  obtain ⟨x, hx, hxn⟩ := hf
  obtain ⟨y, hy, hyn⟩ := hg
  refine Approx.small (hx.add hy (onGrid_natCast _ hn) ?_)
  calc |x + y| ≤ |x| + |y| := abs_add_le x y
    _ ≤ n₁ + n₂ := add_le_add hxn hyn
    _ < (n₁ + n₂ + 1 : ℕ) := by
      push_cast
      exact lt_add_one _

theorem Small.sub (hf : Small n₁ f) (hg : Small n₂ g) (hn : n₁ + n₂ + 1 < 2 ^ 53) :
    Small (n₁ + n₂ + 1) (f - g) := by
  obtain ⟨x, hx, hxn⟩ := hf
  obtain ⟨y, hy, hyn⟩ := hg
  refine Approx.small (hx.sub hy (onGrid_natCast _ hn) ?_)
  calc |x - y| ≤ |x| + |y| := abs_sub x y
    _ ≤ n₁ + n₂ := add_le_add hxn hyn
    _ < (n₁ + n₂ + 1 : ℕ) := by
      push_cast
      exact lt_add_one _

theorem Small.div (hf : Small n f) (hg : Stands g y) (hy : 1 ≤ y) (hn : n + 1 < 2 ^ 53) :
    Small (n + 1) (f / g) := by
  obtain ⟨x, hx, hxn⟩ := hf
  have hpos : 0 < y := one_pos.trans_le hy
  refine Approx.small (hx.div hg hpos.ne' (onGrid_natCast _ hn) ?_)
  calc |x / y| = |x| / y := by rw [abs_div, abs_of_pos hpos]
    _ ≤ |x| := div_le_self (abs_nonneg x) hy
    _ ≤ n := hxn
    _ < (n + 1 : ℕ) := by
      push_cast
      exact lt_add_one _

end Small
end Binary64
