import Mathlib

/-! Arithmetic of doubles on positive normal numbers, as arithmetic of the rational numbers that
they stand for. Results are bounded by one unit in the last place, however they are rounded. -/
namespace Binary64
open Float.Model UnpackedFloat

/-- The double stands for a positive number whose significand has all its 53 bits. -/
def IsPos (f : Float) (x : ℚ) : Prop :=
  ∃ m e hm, f.toModel.unpack = .finite .positive m e hm ∧ 2 ^ 52 ≤ m ∧ m < 2 ^ 53 ∧
    x = m * 2 ^ e

variable {f g : Float} {x y : ℚ} {m n k : ℕ} {e : ℤ} {a : Accuracy} {s : Sign}

theorem log2_eq (h : 2 ^ 52 ≤ m) (h' : m < 2 ^ 53) : m.log2 = 52 := by
  have hm : m ≠ 0 := by
    rintro rfl
    exact absurd h (by decide)
  exact (Nat.log2_eq_iff hm).mpr ⟨h, h'⟩

theorem unpack_pack_finite {hm : 0 < m} (h : 2 ^ 52 ≤ m) (h' : m < 2 ^ 53) (hlow : -1074 ≤ e)
    (hhigh : e ≤ 971) :
    (pack (.finite s m e hm)).unpack = .finite s m e hm := by
  obtain ⟨b, hb⟩ : ∃ b : ℕ, e + 1075 = b := ⟨(e + 1075).toNat, by omega⟩
  have hb' : (e + (Format.binary64.exponentBias : ℤ) + (52 : ℕ)).toNat = b := by
    show (e + 1023 + 52).toNat = b
    omega
  unfold Float.Model.unpack Float.Model.pack
  simp only [UnpackedFloat.pack, hb']
  rw [if_neg (by norm_num; omega), if_pos (by rw [log2_eq h h']; rfl)]
  have hexp : (BitVec.ofNat 11 b).toNat = b := by
    rw [BitVec.toNat_ofNat]
    exact Nat.mod_eq_of_lt (by omega)
  have hmax : BitVec.ofNat 11 b ≠ -1#11 := by
    intro heq
    have := congrArg BitVec.toNat heq
    rw [hexp] at this
    exact absurd this (by show b ≠ 2047; omega)
  have hmin : BitVec.ofNat 11 b ≠ 0#11 := by
    intro heq
    have := congrArg BitVec.toNat heq
    rw [hexp] at this
    exact absurd this (by show b ≠ 0; omega)
  have hmant : (1#1 ++ BitVec.ofNat 52 m).toNat = m := by
    rw [BitVec.toNat_append, BitVec.toNat_ofNat]
    show 1 <<< 52 ||| m % 2 ^ 52 = m
    rw [← Nat.shiftLeft_add_eq_or_of_lt (Nat.mod_lt m (by norm_num))]
    omega
  have hexponent : (b : ℤ) - ((Format.binary64.exponentBias : ℤ) + (52 : ℕ)) = e := by
    show (b : ℤ) - (1023 + 52) = e
    omega
  simp only [UnpackedFloat.unpack, unpackExponent_packComponents, unpackMantissa_packComponents,
    unpackSign_packComponents, Sign.ofBitVec_toBitVec, if_neg hmax, if_neg hmin, hmant, hexp,
    hexponent]

theorem mantissa_shiftRight (em : ExtendedMantissa) (k : ℕ) :
    (em >>> k).mantissa = em.mantissa / 2 ^ k := by
  show (k.repeat ExtendedMantissa.shiftRightOne em).mantissa = _
  induction k with
  | zero => simp [Nat.repeat]
  | succ k ih =>
    show (k.repeat ExtendedMantissa.shiftRightOne em).mantissa / 2 = _
    rw [ih, Nat.div_div_eq_div_mul, pow_succ]

theorem mantissa_ofMantissaAndAccuracy (m : ℕ) (a : Accuracy) :
    (ExtendedMantissa.ofMantissaAndAccuracy m a).mantissa = m := by
  rcases a with _ | o
  · rfl
  · cases o <;> rfl

/-- A significand is rounded to itself or to the next. -/
theorem roundedMantissa_mem (em : ExtendedMantissa) :
    em.mantissa ≤ em.roundedMantissa ∧ em.roundedMantissa ≤ em.mantissa + 1 := by
  obtain ⟨m, _ | _, _ | _⟩ := em
  · exact ⟨le_rfl, Nat.le_succ m⟩
  · exact ⟨le_rfl, Nat.le_succ m⟩
  · show m ≤ m + m % 2 ∧ m + m % 2 ≤ m + 1
    omega
  · exact ⟨Nat.le_succ m, le_rfl⟩

/-- Where no digit is beyond the smallest exponent, as many are dropped as there are more than
53. -/
theorem shiftToTargetExponent_eq (hk : m.log2 = 52 + k) (he : -1074 ≤ e + k) :
    shiftToTargetExponent .binary64 m e a =
      (ExtendedMantissa.ofMantissaAndAccuracy m a >>> k, e + k) := by
  have htarget : Format.binary64.targetExponent (totalExponent m e) = e + k := by
    show max ((m.log2 : ℤ) + 1 + e - 53) (-1074) = e + k
    omega
  have hshift : (e + k - e).toNat = k := by omega
  rw [shiftToTargetExponent, htarget, shiftToExponent, hshift]

theorem shiftToTargetExponent_normal (h : 2 ^ 52 ≤ m) (h' : m < 2 ^ 53) (he : -1074 ≤ e) :
    shiftToTargetExponent .binary64 m e .exact = (⟨m, false, false⟩, e) := by
  have hzero : e + (0 : ℕ) = e := by simp
  rw [shiftToTargetExponent_eq (k := 0) (log2_eq h h') (by omega), hzero]
  rfl

/-- Rounding shifts, rounds the significand, and shifts once more if it has grown by a digit. -/
theorem roundWithAccuracy_of_shift {em em' : ExtendedMantissa} {e' e'' : ℤ}
    (h : shiftToTargetExponent .binary64 m e a = (em, e'))
    (h' : shiftToTargetExponent .binary64 em.roundedMantissa e' .exact = (em', e''))
    (hpos : 0 < em'.mantissa) :
    roundWithAccuracy .binary64 s m e a = .finite s em'.mantissa e'' hpos := by
  simp only [roundWithAccuracy, h, h', dif_neg (Nat.ne_of_gt hpos)]

theorem roundWithAccuracy_exact {hm : 0 < m} (h : 2 ^ 52 ≤ m) (h' : m < 2 ^ 53)
    (he : -1074 ≤ e) : roundWithAccuracy .binary64 s m e .exact = .finite s m e hm :=
  roundWithAccuracy_of_shift (shiftToTargetExponent_normal h h' he)
    (shiftToTargetExponent_normal h h' he) hm

/-- The first 53 digits of a longer significand. -/
theorem div_two_pow_bounds (hk : m.log2 = 52 + k) : 2 ^ 52 ≤ m / 2 ^ k ∧ m / 2 ^ k < 2 ^ 53 := by
  have hm : m ≠ 0 := by
    rintro rfl
    simp at hk
    omega
  obtain ⟨hlow, hhigh⟩ := (Nat.log2_eq_iff hm).mp hk
  constructor
  · rw [Nat.le_div_iff_mul_le (by positivity), ← pow_add]
    exact hlow
  · rw [Nat.div_lt_iff_lt_mul (by positivity), ← pow_add]
    exact hhigh.trans_eq (by congr 1; omega)

/-- What a significand of at least 53 digits is rounded to: its first 53, or one unit more. -/
theorem roundWithAccuracy_eq (hk : m.log2 = 52 + k) (he : -1074 ≤ e + k) :
    ∃ n m' e' hm, roundWithAccuracy .binary64 s m e a = .finite s m' e' hm ∧
      2 ^ 52 ≤ m' ∧ m' < 2 ^ 53 ∧ e + k ≤ e' ∧ e' ≤ e + k + 1 ∧
      m / 2 ^ k ≤ n ∧ n ≤ m / 2 ^ k + 1 ∧ (m' : ℚ) * 2 ^ e' = n * 2 ^ (e + k) := by
  obtain ⟨hlow', hhigh'⟩ := div_two_pow_bounds hk
  have hshift := shiftToTargetExponent_eq (a := a) hk he
  obtain ⟨hfloor, hceil⟩ := roundedMantissa_mem (ExtendedMantissa.ofMantissaAndAccuracy m a >>> k)
  obtain ⟨n, hn⟩ : ∃ n,
      (ExtendedMantissa.ofMantissaAndAccuracy m a >>> k).roundedMantissa = n := ⟨_, rfl⟩
  rw [mantissa_shiftRight, mantissa_ofMantissaAndAccuracy, hn] at hfloor hceil
  rcases Nat.lt_or_ge n (2 ^ 53) with hlt | hge
  · have hagain := shiftToTargetExponent_normal (hlow'.trans hfloor) hlt he
    have hpos : 0 < n := by omega
    subst hn
    have hround := roundWithAccuracy_of_shift (s := s) hshift hagain hpos
    exact ⟨_, _, e + k, hpos, hround, hlow'.trans hfloor, hlt, le_rfl,
      by omega, hfloor, hceil, rfl⟩
  · -- all digits were ones
    obtain rfl : n = 2 ^ 53 := by omega
    have hlog : (2 ^ 53 : ℕ).log2 = 52 + 1 := Nat.log2_two_pow
    have hagain := shiftToTargetExponent_eq (a := .exact) (e := e + k) hlog (by push_cast; omega)
    rw [← hn] at hagain
    have hhalf : (ExtendedMantissa.ofMantissaAndAccuracy (2 ^ 53) .exact >>> 1).mantissa =
      2 ^ 52 := rfl
    have hround := roundWithAccuracy_of_shift (s := s) hshift hagain (by rw [hn]; decide)
    refine ⟨2 ^ 53, 2 ^ 52, e + k + 1, by norm_num, ?_, le_rfl, by norm_num, by omega, le_rfl,
      hfloor, hceil, ?_⟩
    · rw [hround]
      simp only [hn, hhalf]
      rfl
    · rw [zpow_add_one₀ two_ne_zero]
      push_cast
      ring

theorem isPos_pack {m : ℕ} {e : ℤ} {hm : 0 < m} (h : 2 ^ 52 ≤ m) (h' : m < 2 ^ 53)
    (hlow : -1074 ≤ e) (hhigh : e ≤ 971) :
    IsPos (.ofModel (pack (.finite .positive m e hm))) (m * 2 ^ e) :=
  ⟨m, e, hm, unpack_pack_finite h h' hlow hhigh, h, h', rfl⟩

/-- Far from the smallest and from the largest normal double. -/
structure InRange (v : ℚ) : Prop where
  low : 2 ^ (-1000 : ℤ) ≤ v
  high : v ≤ 2 ^ (1000 : ℤ)

theorem inRange_of_bounds {v : ℚ} (hlow : 2 ^ (-64 : ℤ) ≤ v) (hhigh : v ≤ 2 ^ (64 : ℤ)) :
    InRange v :=
  ⟨(zpow_le_zpow_right₀ one_le_two (by norm_num)).trans hlow,
    hhigh.trans (zpow_le_zpow_right₀ one_le_two (by norm_num))⟩

/-- The digits of `v` down to the exponent `e` are `m`. -/
structure Between (m : ℕ) (e : ℤ) (v : ℚ) : Prop where
  floor : m * 2 ^ e ≤ v
  ceil : v < (m + 1) * 2 ^ e

/-- Dropping digits of `m` drops digits of the number. -/
theorem Between.shift {v : ℚ} (hb : Between m e v) (k : ℕ) : Between (m / 2 ^ k) (e + k) v := by
  have hu : (2 : ℚ) ^ (e + k) = 2 ^ k * 2 ^ e := by
    rw [add_comm, zpow_add₀ two_ne_zero, zpow_natCast]
  constructor
  · calc ((m / 2 ^ k : ℕ) : ℚ) * 2 ^ (e + k) = (m / 2 ^ k * 2 ^ k : ℕ) * 2 ^ e := by
          rw [hu]
          push_cast
          ring
      _ ≤ m * 2 ^ e := by
        gcongr
        exact Nat.div_mul_le_self m (2 ^ k)
      _ ≤ v := hb.floor
  · calc v < (m + 1) * 2 ^ e := hb.ceil
      _ ≤ ((m / 2 ^ k + 1) * 2 ^ k : ℕ) * 2 ^ e := by
        gcongr
        exact_mod_cast Nat.lt_mul_of_div_lt (Nat.lt_succ_self _) (by positivity)
      _ = ((m / 2 ^ k : ℕ) + 1 : ℚ) * 2 ^ (e + k) := by
        rw [hu]
        push_cast
        ring

/-- With 53 digits the number lies between two powers of two. -/
theorem Between.unit {v : ℚ} (hb : Between m e v) (h : 2 ^ 52 ≤ m) (h' : m < 2 ^ 53) :
    (2 : ℚ) ^ (52 + e) ≤ v ∧ v < 2 ^ (53 + e) := by
  constructor
  · calc (2 : ℚ) ^ (52 + e) = (2 ^ 52 : ℕ) * 2 ^ e := by
          rw [zpow_add₀ two_ne_zero]
          norm_num
      _ ≤ m * 2 ^ e := by gcongr
      _ ≤ v := hb.floor
  · calc v < (m + 1) * 2 ^ e := hb.ceil
      _ ≤ (2 ^ 53 : ℕ) * 2 ^ e := by
        gcongr
        exact_mod_cast h'
      _ = (2 : ℚ) ^ (53 + e) := by
        rw [zpow_add₀ two_ne_zero]
        norm_num

/-- One unit of 53 digits, relative to the number. -/
theorem Between.ulp_le {v : ℚ} (hb : Between m e v) (h : 2 ^ 52 ≤ m) (h' : m < 2 ^ 53) :
    (2 : ℚ) ^ e ≤ v * 2 ^ (-52 : ℤ) := by
  have hexp : (52 + e + -52 : ℤ) = e := by omega
  calc (2 : ℚ) ^ e = 2 ^ (52 + e) * 2 ^ (-52 : ℤ) := by rw [← zpow_add₀ two_ne_zero, hexp]
    _ ≤ v * 2 ^ (-52 : ℤ) := by
      gcongr
      exact (hb.unit h h').1

/-- A number whose first digits are `m` is rounded to a double that is off by one unit at most. -/
theorem isPos_round {v : ℚ} (hm : 2 ^ 52 ≤ m) (hb : Between m e v) (hv : InRange v) :
    ∃ z, IsPos (.ofModel (pack (roundWithAccuracy .binary64 .positive m e a))) z ∧
      |z - v| ≤ v * 2 ^ (-52 : ℤ) := by
  have hm0 : m ≠ 0 := by omega
  obtain ⟨k, hk⟩ : ∃ k, m.log2 = 52 + k := Nat.exists_eq_add_of_le ((Nat.le_log2 hm0).mpr hm)
  obtain ⟨hlo, hhi⟩ := div_two_pow_bounds hk
  have hdigits := hb.shift k
  obtain ⟨hunit, hunit'⟩ := hdigits.unit hlo hhi
  have he : -1074 ≤ e + k := by
    have hexp := (zpow_lt_zpow_iff_right₀ (one_lt_two : (1 : ℚ) < 2)).mp (hv.low.trans_lt hunit')
    omega
  have he' : e + k ≤ 948 := by
    have hexp := (zpow_le_zpow_iff_right₀ (one_lt_two : (1 : ℚ) < 2)).mp (hunit.trans hv.high)
    omega
  obtain ⟨n, m', e', hm', hround, hm₁, hm₂, he₁, he₂, hn₁, hn₂, hz⟩ :=
    roundWithAccuracy_eq (s := .positive) (a := a) hk he
  refine ⟨m' * 2 ^ e', ?_, ?_⟩
  · rw [hround]
    exact isPos_pack hm₁ hm₂ (he.trans he₁) (by omega)
  · -- `n` units and the number are both between the digits and one more
    have hn₁' : ((m / 2 ^ k : ℕ) : ℚ) * 2 ^ (e + k) ≤ n * 2 ^ (e + k) := by gcongr
    have hn₂' : (n : ℚ) * 2 ^ (e + k) ≤ ((m / 2 ^ k : ℕ) + 1 : ℚ) * 2 ^ (e + k) := by
      gcongr
      exact_mod_cast hn₂
    have hfloor := hdigits.floor
    have hceil := hdigits.ceil
    have hulp := hdigits.ulp_le hlo hhi
    rw [hz, abs_le]
    constructor <;> linarith

theorem isPos_mul (hf : IsPos f x) (hg : IsPos g y) (hr : InRange (x * y)) :
    ∃ z, IsPos (f * g) z ∧ |z - x * y| ≤ x * y * 2 ^ (-52 : ℤ) := by
  obtain ⟨m₁, e₁, hm₁, hf, hlo₁, -, rfl⟩ := hf
  obtain ⟨m₂, e₂, hm₂, hg, hlo₂, -, rfl⟩ := hg
  have hmul : f * g = .ofModel (pack
      (roundWithAccuracy .binary64 .positive (m₁ * m₂) (e₁ + e₂) .exact)) := by
    show Float.ofModel (pack (UnpackedFloat.mul .binary64 f.toModel.unpack g.toModel.unpack)) = _
    rw [hf, hg]
    rfl
  have hv : (m₁ * 2 ^ e₁ * (m₂ * 2 ^ e₂) : ℚ) = (m₁ * m₂ : ℕ) * 2 ^ (e₁ + e₂) := by
    rw [zpow_add₀ two_ne_zero]
    push_cast
    ring
  rw [hmul]
  refine isPos_round ?_ ⟨hv.ge, ?_⟩ hr
  · exact hlo₁.trans (Nat.le_mul_of_pos_right m₁ hm₂)
  · rw [hv]
    gcongr
    linarith

/-- Dividing two significands of 53 digits shifts the first by as many. -/
theorem divCore_eq {m₁ m₂ : ℕ} {e₁ e₂ : ℤ} (h₁ : m₁.log2 = 52) (h₂ : m₂.log2 = 52)
    (he : -1001 ≤ e₁ - e₂) : divCore .binary64 m₁ e₁ m₂ e₂ =
      (m₁ * 2 ^ 53 / m₂, e₁ - e₂ - 53, accuracyOfFraction (m₁ * 2 ^ 53 % m₂) m₂) := by
  have htotal : totalExponent m₁ e₁ - totalExponent m₂ e₂ = e₁ - e₂ := by
    rw [totalExponent, totalExponent, h₁, h₂]
    omega
  have htarget : min (e₁ - e₂) (Format.binary64.targetExponent (e₁ - e₂)) = e₁ - e₂ - 53 := by
    show min (e₁ - e₂) (max (e₁ - e₂ - 53) (-1074)) = _
    omega
  have hshift : (e₁ - e₂ - (e₁ - e₂ - 53)).toNat = 53 := by omega
  simp only [divCore, htotal, htarget, hshift, Nat.shiftLeft_eq]

/-- The digits of a quotient are those of the quotient of the shifted significands. -/
theorem between_div {m₁ m₂ : ℕ} (e₁ e₂ : ℤ) (k : ℕ) (hm₂ : 0 < m₂) :
    Between (m₁ * 2 ^ k / m₂) (e₁ - e₂ - k) (m₁ * 2 ^ e₁ / (m₂ * 2 ^ e₂)) := by
  have hpos : (0 : ℚ) < m₂ := by exact_mod_cast hm₂
  have hv : (m₁ * 2 ^ e₁ / (m₂ * 2 ^ e₂) : ℚ) =
      (m₁ * 2 ^ k : ℕ) / m₂ * 2 ^ (e₁ - e₂ - k) := by
    have hexp : (2 : ℚ) ^ (e₁ - e₂ - k) = 2 ^ e₁ / (2 ^ e₂ * 2 ^ k) := by
      rw [zpow_sub₀ two_ne_zero, zpow_sub₀ two_ne_zero, div_div, zpow_natCast]
    rw [hexp, Nat.cast_mul, Nat.cast_pow, Nat.cast_ofNat]
    field_simp
  rw [hv]
  constructor
  · gcongr
    exact Nat.cast_div_le
  · gcongr
    rw [div_lt_iff₀ hpos]
    exact_mod_cast Nat.lt_mul_of_div_lt (Nat.lt_succ_self _) hm₂

theorem isPos_div (hf : IsPos f x) (hg : IsPos g y) (hr : InRange (x / y)) :
    ∃ z, IsPos (f / g) z ∧ |z - x / y| ≤ x / y * 2 ^ (-52 : ℤ) := by
  obtain ⟨m₁, e₁, hm₁, hf, hlo₁, hhi₁, rfl⟩ := hf
  obtain ⟨m₂, e₂, hm₂, hg, hlo₂, hhi₂, rfl⟩ := hg
  -- the quotient of the significands is below 2, and so bounds the exponents
  have hlarge : -1001 ≤ e₁ - e₂ := by
    have hratio : (m₁ : ℚ) / m₂ < 2 := by
      have hpos : (0 : ℚ) < m₂ := by exact_mod_cast hm₂
      rw [div_lt_iff₀ hpos]
      have hlt : m₁ < 2 * m₂ := by omega
      exact_mod_cast hlt
    have hlt : (2 : ℚ) ^ (-1000 : ℤ) < 2 ^ (e₁ - e₂ + 1) := by
      calc (2 : ℚ) ^ (-1000 : ℤ) ≤ m₁ * 2 ^ e₁ / (m₂ * 2 ^ e₂) := hr.low
        _ = m₁ / m₂ * 2 ^ (e₁ - e₂) := by
          rw [zpow_sub₀ two_ne_zero]
          field_simp
        _ < 2 * 2 ^ (e₁ - e₂) := by gcongr
        _ = 2 ^ (e₁ - e₂ + 1) := by rw [zpow_add_one₀ two_ne_zero, mul_comm]
    have hexp := (zpow_lt_zpow_iff_right₀ (one_lt_two : (1 : ℚ) < 2)).mp hlt
    omega
  have hcore := divCore_eq (log2_eq hlo₁ hhi₁) (log2_eq hlo₂ hhi₂) hlarge
  have hdiv : f / g = .ofModel (pack (roundWithAccuracy .binary64 .positive (m₁ * 2 ^ 53 / m₂)
      (e₁ - e₂ - 53) (accuracyOfFraction (m₁ * 2 ^ 53 % m₂) m₂))) := by
    show Float.ofModel (pack (UnpackedFloat.div .binary64 f.toModel.unpack g.toModel.unpack)) = _
    rw [hf, hg]
    simp only [UnpackedFloat.div, hcore]
    rfl
  rw [hdiv]
  refine isPos_round ?_ (between_div e₁ e₂ 53 hm₂) hr
  rw [Nat.le_div_iff_mul_le hm₂]
  omega

theorem lt_iff_compare :
    f < g ↔ f.toModel.unpack.compare g.toModel.unpack = some .lt := by
  show decide (f.toModel < g.toModel) = true ↔ _
  rw [decide_eq_true_iff]
  exact beq_iff_eq

/-- Doubles compare as the numbers that they stand for. -/
theorem lt_iff (hf : IsPos f x) (hg : IsPos g y) : f < g ↔ x < y := by
  obtain ⟨m₁, e₁, hm₁, hf, hlo₁, hhi₁, rfl⟩ := hf
  obtain ⟨m₂, e₂, hm₂, hg, hlo₂, hhi₂, rfl⟩ := hg
  have hlt : f < g ↔ e₁ < e₂ ∨ e₁ = e₂ ∧ m₁ < m₂ := by
    rw [lt_iff_compare, hf, hg, UnpackedFloat.compare, Option.some_inj, Ordering.then_eq_lt,
      compare_lt_iff_lt, compare_eq_iff_eq, compare_lt_iff_lt]
  -- a larger exponent outweighs any significand
  have hexp {m m' : ℕ} {e e' : ℤ} (h : m < 2 ^ 53) (h' : 2 ^ 52 ≤ m') (he : e < e') :
      (m * 2 ^ e : ℚ) < m' * 2 ^ e' := by
    calc (m * 2 ^ e : ℚ) < (2 ^ 53 : ℕ) * 2 ^ e := by gcongr
      _ = (2 ^ 52 : ℕ) * 2 ^ (e + 1) := by
        rw [zpow_add_one₀ two_ne_zero]
        push_cast
        ring
      _ ≤ m' * 2 ^ e' := by
        gcongr
        · exact one_le_two
        · exact he
  rw [hlt]
  rcases lt_trichotomy e₁ e₂ with he | rfl | he
  · exact iff_of_true (.inl he) (hexp hhi₁ hlo₂ he)
  · have hpos : (0 : ℚ) < 2 ^ e₁ := by positivity
    rw [mul_lt_mul_iff_left₀ hpos, Nat.cast_lt]
    simp
  · exact iff_of_false (by omega) (hexp hhi₂ hlo₁ he).not_gt

/-- A short significand is filled up to 53 digits. -/
theorem mul_two_pow_bounds (hm : m ≠ 0) (hk : m.log2 + k = 52) :
    2 ^ 52 ≤ m * 2 ^ k ∧ m * 2 ^ k < 2 ^ 53 := by
  obtain ⟨hlo, hhi⟩ := (Nat.log2_eq_iff hm).mp rfl
  constructor
  · rw [← hk, pow_add]
    exact Nat.mul_le_mul_right _ hlo
  · have hexp : m.log2 + 1 + k = 53 := by omega
    rw [← hexp, pow_add]
    exact Nat.mul_lt_mul_of_pos_right hhi (by positivity)

theorem ofUInt32_eq {n : UInt32} {hm : 0 < n.toNat * 2 ^ k} (hn : n.toNat ≠ 0)
    (hk : n.toNat.log2 + k = 52) :
    UnpackedFloat.ofUInt32 .binary64 n = .finite .positive (n.toNat * 2 ^ k) (-k) hm := by
  obtain ⟨hlo, hhi⟩ := mul_two_pow_bounds hn hk
  have htarget : Format.binary64.targetExponent (totalExponent n.toNat 0) = -k := by
    show max ((n.toNat.log2 : ℤ) + 1 + 0 - 53) (-1074) = -k
    omega
  have hcmp : compare (n.toNat : ℤ) 0 = .gt := by
    rw [compare_gt_iff_gt]
    omega
  have hdown : decreaseExponent n.toNat 0 (-k) = (n.toNat * 2 ^ k, -(k : ℤ)) := by
    have hshift : (0 - -(k : ℤ)).toNat = k := by omega
    rw [decreaseExponent, hshift, Nat.shiftLeft_eq, zero_sub]
  show UnpackedFloat.normalize .binary64 (n.toNat : ℤ) 0 .positive = _
  rw [UnpackedFloat.normalize, hcmp]
  show UnpackedFloat.round .binary64 .positive n.toNat 0 = _
  simp only [UnpackedFloat.round, htarget, hdown]
  exact roundWithAccuracy_exact hlo hhi (by omega)

/-- Words are doubles exactly. -/
theorem isPos_toFloat (n : UInt32) (hn : n ≠ 0) : IsPos n.toFloat n.toNat := by
  have hn0 : n.toNat ≠ 0 := fun h => hn (UInt32.toNat_inj.mp h)
  have hlog : n.toNat.log2 < 32 := (Nat.log2_lt hn0).mpr n.toNat_lt
  obtain ⟨k, hk⟩ : ∃ k, n.toNat.log2 + k = 52 := ⟨52 - n.toNat.log2, by omega⟩
  obtain ⟨hlo, hhi⟩ := mul_two_pow_bounds hn0 hk
  have hvalue : (n.toNat : ℚ) = (n.toNat * 2 ^ k : ℕ) * 2 ^ (-(k : ℤ)) := by
    rw [zpow_neg, zpow_natCast]
    push_cast
    field_simp
  rw [hvalue]
  show IsPos (.ofModel (pack (UnpackedFloat.ofUInt32 .binary64 n))) _
  rw [ofUInt32_eq hn0 hk]
  · exact isPos_pack hlo hhi (by omega) (by omega)
  · omega

theorem roundToInt_eq (s : Sign) (m : ℕ) (e : ℤ) :
    roundToInt s m e = s.apply ⌊(m * 2 ^ e : ℚ)⌋₊ := by
  obtain ⟨k, rfl | rfl⟩ := e.eq_nat_or_neg
  · have hup : ((k : ℤ) - 0).toNat = k := by omega
    have hdown : (0 - ((k : ℤ) - k)).toNat = 0 := by omega
    have hfloor : ⌊(m * 2 ^ (k : ℤ) : ℚ)⌋₊ = m * 2 ^ k := by
      rw [zpow_natCast]
      exact_mod_cast Nat.floor_natCast (R := ℚ) (m * 2 ^ k)
    simp only [roundToInt, decreaseExponent, hup, shiftToExponent, hdown, mantissa_shiftRight,
      mantissa_ofMantissaAndAccuracy, hfloor, Nat.shiftLeft_eq, pow_zero, Nat.div_one]
  · have hup : (-(k : ℤ) - 0).toNat = 0 := by omega
    have hdown : (0 - (-(k : ℤ) - (0 : ℕ))).toNat = k := by omega
    have hfloor : ⌊(m * 2 ^ (-k : ℤ) : ℚ)⌋₊ = m / 2 ^ k := by
      rw [zpow_neg, zpow_natCast, ← div_eq_mul_inv]
      exact_mod_cast Nat.floor_div_eq_div (K := ℚ) m (2 ^ k)
    simp only [roundToInt, decreaseExponent, hup, shiftToExponent, hdown, mantissa_shiftRight,
      mantissa_ofMantissaAndAccuracy, hfloor, Nat.shiftLeft_eq, pow_zero, Nat.mul_one]

/-- A conversion to a word drops what is behind the point, and stops at the largest word. -/
theorem toNat_toUInt32 (hf : IsPos f x) : f.toUInt32.toNat = min ⌊x⌋₊ (2 ^ 32 - 1) := by
  obtain ⟨m, e, hm, hf, -, -, rfl⟩ := hf
  have hword : f.toUInt32 = UInt32.ofNatClamp ⌊(m * 2 ^ e : ℚ)⌋₊ := by
    show UnpackedFloat.toUInt32 f.toModel.unpack = _
    rw [hf, UnpackedFloat.toUInt32, toInt, roundToInt_eq]
    rfl
  rw [hword, UInt32.ofNatClamp]
  split
  · rename_i hlt
    have hle : ⌊(m * 2 ^ e : ℚ)⌋₊ ≤ 2 ^ 32 - 1 := Nat.le_sub_one_of_lt hlt
    rw [min_eq_left hle]
    rfl
  · rename_i hge
    have hle : 2 ^ 32 - 1 ≤ ⌊(m * 2 ^ e : ℚ)⌋₊ := by
      have hsize : UInt32.size ≤ ⌊(m * 2 ^ e : ℚ)⌋₊ := Nat.le_of_not_lt hge
      exact (Nat.sub_le _ _).trans hsize
    rw [min_eq_right hle]
    rfl

theorem zero_div (hg : IsPos g y) : (0 : UInt32).toFloat / g = 0.0 := by
  obtain ⟨m, e, hm, hg, -⟩ := hg
  show Float.ofModel (pack (UnpackedFloat.div .binary64 (0 : UInt32).toFloat.toModel.unpack
    g.toModel.unpack)) = 0.0
  rw [hg]
  rfl

theorem lt_div_zero (hf : IsPos f x) (hg : IsPos g y) : g < f / (0 : UInt32).toFloat := by
  obtain ⟨m₁, e₁, hm₁, hf, -⟩ := hf
  obtain ⟨m₂, e₂, hm₂, hg, -⟩ := hg
  rw [lt_iff_compare]
  have hdiv : f / (0 : UInt32).toFloat = .ofModel (pack (.infinity .positive)) := by
    show Float.ofModel (pack (UnpackedFloat.div .binary64 f.toModel.unpack
      (0 : UInt32).toFloat.toModel.unpack)) = _
    rw [hf]
    rfl
  rw [hdiv, hg]
  rfl

end Binary64
