import Mathlib.Algebra.Order.Group.Nat
import Mathlib.Combinatorics.Pigeonhole
import Redesk.Common.Types
import Redesk.Machine.Rounding

/-! Where the capturer of the default build puts its cursor: on a circle around the middle of the
picture, with a sine and a cosine that are approximated in doubles. -/
namespace Machine

variable {α : Type*}

/-- `while (cond x) x = body x`, which has no value if it is not over after so many rounds. -/
def whileDo (cond : α → Prop) [DecidablePred cond] (body : α → α) : ℕ → α → Option α
  | 0, x => if cond x then none else some x
  | n + 1, x => if cond x then whileDo cond body n (body x) else some x

variable {cond : α → Prop} [DecidablePred cond] {body : α → α} {I : ℕ → α → Prop} {J : α → Prop}
  {n m : ℕ} {x y : α}

theorem whileDo_eq_none_iff : whileDo cond body n x = none ↔ ∀ i ≤ n, cond (body^[i] x) := by
  induction n generalizing x with
  | zero => simp [whileDo]
  | succ n ih =>
    rw [whileDo]
    by_cases hc : cond x
    · rw [if_pos hc, ih]
      constructor
      · rintro hall (_ | i) hi
        · exact hc
        · exact hall i (by omega)
      · exact fun hall i hi => hall (i + 1) (by omega)
    · rw [if_neg hc]
      exact iff_of_false (by simp) fun hall => hc (hall 0 (by omega))

theorem whileDo_of_not (hc : ¬ cond x) : whileDo cond body n x = some x := by
  cases n with
  | zero => exact if_neg hc
  | succ n => exact if_neg hc

/-- Where there are only `n` values, a loop that is not over after `n` rounds comes back to one, and
goes on for ever. -/
theorem whileDo_eq_none_iff_endless {f : α → ℕ} (hf : Function.Injective f) (hlt : ∀ x, f x < n) :
    whileDo cond body n x = none ↔ ∀ i, cond (body^[i] x) := by
  rw [whileDo_eq_none_iff]
  refine ⟨fun hall => ?_, fun hall i _ => hall i⟩
  have hcard : (Finset.range n).card < (Finset.range (n + 1)).card := by simp
  have hmaps : ∀ i ∈ Finset.range (n + 1), f (body^[i] x) ∈ Finset.range n :=
    fun i _ => Finset.mem_range.mpr (hlt _)
  obtain ⟨a, ha, b, hb, hab, heq⟩ := Finset.exists_ne_map_eq_of_card_lt_of_maps_to hcard hmaps
  wlog hle : a < b generalizing a b
  · exact this b hb a ha hab.symm heq.symm (by omega)
  have hback (k : ℕ) : body^[k + b] x = body^[k + a] x := by
    rw [Function.iterate_add_apply, ← hf heq, ← Function.iterate_add_apply]
  -- a round from `b` on is one that was there `b - a` rounds before
  intro i
  induction i using Nat.strong_induction_on with
  | h i ih =>
    rcases Nat.lt_or_ge i b with hi | hi
    · rw [Finset.mem_range] at hb
      exact hall i (by omega)
    · obtain ⟨k, rfl⟩ := Nat.exists_eq_add_of_le' hi
      rw [hback]
      exact ih (k + a) (by omega)

/-- A loop is over when a bound on the rounds that are left has run out. -/
theorem whileDo_ends (hzero : ∀ x, I 0 x → ¬ cond x)
    (hsucc : ∀ n x, I (n + 1) x → cond x → I n (body x)) (hx : I n x) (hn : n ≤ m) :
    whileDo cond body m x ≠ none := by
  induction n generalizing m x with
  | zero =>
    rw [Ne, whileDo_eq_none_iff]
    exact fun hall => hzero x hx (hall 0 (Nat.zero_le m))
  | succ n ih =>
    obtain ⟨m, rfl⟩ := Nat.exists_eq_add_one.mpr (Nat.lt_of_lt_of_le n.succ_pos hn)
    rw [whileDo]
    by_cases hc : cond x
    · rw [if_pos hc]
      exact ih (hsucc n x hx hc) (by omega)
    · rw [if_neg hc]
      exact Option.some_ne_none x

/-- What a round keeps holds when the loop is over. -/
theorem whileDo_keeps (hbody : ∀ x, J x → cond x → J (body x)) (hx : J x)
    (hy : whileDo cond body n x = some y) : J y ∧ ¬ cond y := by
  induction n generalizing x with
  | zero =>
    rw [whileDo, Option.ite_none_left_eq_some] at hy
    obtain ⟨hc, hy⟩ := hy
    obtain rfl := Option.some.inj hy
    exact ⟨hx, hc⟩
  | succ n ih =>
    rw [whileDo] at hy
    split at hy
    next hc => exact ih (hbody x hx hc) hy
    next hc =>
      obtain rfl := Option.some.inj hy
      exact ⟨hx, hc⟩

end Machine

namespace Redesk.Capture
open Machine Binary64

def kStubWidth : ℕ := 1280

def kStubHeight : ℕ := 720

def kPi : Float := 3.14159265358979323846

/-- A loop over doubles that is not over after `2 ^ 64` rounds never is. -/
def fastSin (x : Float) : Option Float := do
  -- wrap to [-pi, pi]
  let x ← whileDo (fun x => x > kPi) (fun x => x - 2 * kPi) (2 ^ 64) x
  let x ← whileDo (fun x => x < -kPi) (fun x => x + 2 * kPi) (2 ^ 64) x
  let x2 := x * x
  return x * (1.0 - x2 / 6.0 + x2 * x2 / 120.0)

def fastCos (x : Float) : Option Float := fastSin (x + 1.57079632679)

/-- `static_cast<int32_t>`, which has no value where the result is none of the type. -/
def castInt32 (f : Float) : Option Int32 :=
  if -2147483649.0 < f ∧ f < 2147483648.0 then some f.toModel.toInt32 else none

/-- A sum of ints, which has no value if it overflows. -/
def checkedAdd (a b : Int32) : Option Int32 :=
  if -2 ^ 31 ≤ a.toInt + b.toInt ∧ a.toInt + b.toInt < 2 ^ 31 then some (a + b) else none

def angle (frameIndex : UInt64) : Float := frameIndex.toFloat * 0.1

/-- The cursor's place at a frame. -/
def position (frameIndex : UInt64) : Option (Int32 × Int32) := do
  let x ← checkedAdd (.ofNat (kStubWidth / 2)) (← castInt32 (200 * (← fastCos (angle frameIndex))))
  let y ← checkedAdd (.ofNat (kStubHeight / 2)) (← castInt32 (200 * (← fastSin (angle frameIndex))))
  return (x, y)

/-- The first loop of the sine goes on for ever. -/
def Endless (f : Float) : Prop := ∀ i, (fun x => x - 2 * kPi)^[i] f > kPi

/-- The number that `kPi` stands for. -/
def pi : ℚ := 7074237752028440 * 2 ^ (-51 : ℤ)

theorem stands_kPi : Stands kPi pi := stands_of_unpack .positive (by decide) rfl

theorem stands_neg_kPi : Stands (-kPi) (-pi) :=
  stands_of_unpack .negative (by decide) rfl

theorem stands_two_kPi : Stands (2 * kPi) (2 * pi) := by
  have htwo : 2 * pi = 7074237752028440 * 2 ^ (-50 : ℤ) := by
    norm_num [pi]
  rw [htwo]
  exact stands_of_unpack .positive (by decide) rfl

theorem pi_bounds : 3 < pi ∧ pi < 4 := by
  constructor <;> norm_num [pi]

theorem onGrid_pi : OnGrid pi := ⟨7074237752028440, -51, by norm_num, by norm_num, by norm_num, rfl⟩

variable {f : Float} {x : ℚ} {n k : ℕ}

/-- The last round of the first loop ends between `-pi` and zero. -/
theorem exists_stands_sub (hx : Stands f x) (hpi : pi < x) (hlast : x ≤ 2 * pi) :
    ∃ z, Stands (f - 2 * kPi) z ∧ -pi ≤ z ∧ z ≤ 0 := by
  have habs : |x - 2 * pi| < pi := by
    rw [abs_lt]
    constructor <;> linarith
  obtain ⟨z, hz, hnear⟩ := hx.sub stands_two_kPi onGrid_pi habs
  exact ⟨z, hz, (abs_le.mp hnear.le).1, hnear.nonpos (by linarith)⟩

/-- The angle is at most so many rounds above zero. -/
def Turning (n : ℕ) (f : Float) : Prop := n ≤ 2 ^ 52 ∧ ∃ x, Stands f x ∧ x ≤ 4 * n

/-- A round of the first loop takes more than 4 off, or ends below zero. -/
theorem Turning.sub (ht : Turning (n + 1) f) (hf : f > kPi) : Turning n (f - 2 * kPi) := by
  obtain ⟨hn, x, hx, hle⟩ := ht
  obtain ⟨hthree, hfour⟩ := pi_bounds
  have hpi : pi < x := (stands_kPi.lt_iff hx).mp hf
  refine ⟨by omega, ?_⟩
  rcases le_or_gt x (2 * pi) with hlast | hmore
  · obtain ⟨z, hz, -, hz0⟩ := exists_stands_sub hx hpi hlast
    exact ⟨z, hz, hz0.trans (by positivity)⟩
  · have hsmall : x < 2 ^ (53 + 2) := by
      have hcast : ((n + 1 : ℕ) : ℚ) ≤ (2 ^ 52 : ℕ) := by exact_mod_cast hn
      norm_num at hcast hle ⊢
      linarith
    have hgrid := hx.onGrid_sub_two_pow (k := 2) (by linarith) hsmall
    have habs : |x - 2 * pi| < x - 2 ^ 2 := by
      rw [abs_of_nonneg (by linarith)]
      linarith
    obtain ⟨z, hz, hnear⟩ := hx.sub stands_two_kPi hgrid habs
    have hzle := (abs_le.mp hnear.le).2
    push_cast at hle
    exact ⟨z, hz, by linarith⟩

/-- An angle that is not too large is wrapped in finitely many rounds. -/
theorem Turning.not_endless (ht : Turning n f) : ¬ Endless f := by
  have hzero : ∀ g, Turning 0 g → ¬ g > kPi := by
    rintro g ⟨-, x, hx, hle⟩ hg
    have hlt := (stands_kPi.lt_iff hx).mp hg
    push_cast at hle
    linarith [pi_bounds.1]
  have hends := whileDo_ends (m := 2 ^ 64) hzero (fun n g hg hc => hg.sub hc) ht
    (ht.1.trans (by norm_num))
  exact fun hall => hends (whileDo_eq_none_iff.mpr fun i _ => hall i)

/-- An angle that the first loop begins or ends a round with. -/
def Wrapping (f : Float) : Prop := ∃ x, Stands f x ∧ -pi ≤ x

theorem Wrapping.sub (hw : Wrapping f) (hf : f > kPi) : Wrapping (f - 2 * kPi) := by
  obtain ⟨x, hx, -⟩ := hw
  have hpi : pi < x := (stands_kPi.lt_iff hx).mp hf
  have hthree := pi_bounds.1
  rcases le_or_gt x (2 * pi) with hlast | hmore
  · obtain ⟨z, hz, hlow, -⟩ := exists_stands_sub hx hpi hlast
    exact ⟨z, hz, hlow⟩
  · have habs : |x - 2 * pi| < x := by
      rw [abs_of_nonneg (by linarith)]
      linarith
    obtain ⟨z, hz, hnear⟩ := hx.sub stands_two_kPi (hx.onGrid (by linarith)) habs
    have hz0 := hnear.nonneg (by linarith)
    exact ⟨z, hz, by linarith⟩

/-- A wrapped angle is between `-pi` and `pi`, where the polynomial is not large. -/
theorem small_polynomial {g : Float} {z : ℚ} (hz : Stands g z) (hle : |z| ≤ pi) :
    Small 1249 (g * (1.0 - g * g / 6.0 + g * g * (g * g) / 120.0)) := by
  have hg : Small 4 g := ⟨z, hz, hle.trans pi_bounds.2.le⟩
  have hone : Small 1 1.0 :=
    ⟨_, stands_of_unpack .positive (m := 4503599627370496) (e := -52) (by decide) rfl, by
      norm_num [signed]⟩
  have hsix : Stands 6.0 6 := by
    have heq : (6 : ℚ) = 6755399441055744 * 2 ^ (-50 : ℤ) := by norm_num
    rw [heq]
    exact stands_of_unpack .positive (by decide) rfl
  have hfactor : Stands 120.0 120 := by
    have heq : (120 : ℚ) = 8444249301319680 * 2 ^ (-46 : ℤ) := by norm_num
    rw [heq]
    exact stands_of_unpack .positive (by decide) rfl
  have hsquare : Small 17 (g * g) := hg.mul hg (by norm_num)
  have hcubic : Small 20 (1.0 - g * g / 6.0) :=
    hone.sub (hsquare.div hsix (by norm_num) (by norm_num)) (by norm_num)
  have hquintic : Small 291 (g * g * (g * g) / 120.0) :=
    (hsquare.mul hsquare (by norm_num)).div hfactor (by norm_num) (by norm_num)
  exact hg.mul (hcubic.add hquintic (by norm_num)) (by norm_num)

/-- The sine has no value if its first loop goes on for ever, and is not large otherwise. -/
theorem Wrapping.fastSin_cases (hw : Wrapping f) :
    Endless f ∧ fastSin f = none ∨ ¬ Endless f ∧ ∃ g, fastSin f = some g ∧ Small 1249 g := by
  have hnone : whileDo (fun x => x > kPi) (fun x => x - 2 * kPi) (2 ^ 64) f = none ↔ Endless f :=
    whileDo_eq_none_iff_endless toBits_injective fun g => g.toModel.toBits.toNat_lt
  unfold fastSin
  cases hloop : whileDo (fun x => x > kPi) (fun x => x - 2 * kPi) (2 ^ 64) f with
  | none => exact .inl ⟨hnone.mp hloop, rfl⟩
  | some g =>
    have hends : ¬ Endless f := by
      rw [← hnone, hloop]
      exact Option.some_ne_none g
    obtain ⟨⟨z, hz, hlow⟩, hend⟩ := whileDo_keeps (fun g hg hc => hg.sub hc) hw hloop
    have hhigh : z ≤ pi := not_lt.mp fun hlt => hend ((stands_kPi.lt_iff hz).mpr hlt)
    have hstay : ¬ g < -kPi := fun hlt => ((hz.lt_iff stands_neg_kPi).mp hlt).not_ge hlow
    have hover : whileDo (fun x => x < -kPi) (fun x => x + 2 * kPi) (2 ^ 64) g = some g :=
      whileDo_of_not hstay
    refine .inr ⟨hends, _, ?_, small_polynomial hz (abs_le.mpr ⟨hlow, hhigh⟩)⟩
    rw [Option.bind_eq_bind, Option.bind_some, hover]
    rfl

/-- What is small can be converted. -/
theorem castInt32_of_small (hf : Small n f) (hn : n < 2 ^ 31) :
    ∃ i, castInt32 f = some i ∧ |i.toInt| ≤ n := by
  obtain ⟨x, hx, hle⟩ := hf
  obtain ⟨hlow, hhigh⟩ := abs_le.mp hle
  have hcast : (n : ℚ) < 2147483648 := by exact_mod_cast hn
  have hmin : Stands (-2147483649.0) (-2147483649) := by
    have heq : (-2147483649 : ℚ) = -(4503599629467648 * 2 ^ (-21 : ℤ)) := by norm_num
    rw [heq]
    exact stands_of_unpack .negative (by decide) rfl
  have hmax : Stands 2147483648.0 2147483648 := by
    have heq : (2147483648 : ℚ) = 4503599627370496 * 2 ^ (-21 : ℤ) := by norm_num
    rw [heq]
    exact stands_of_unpack .positive (by decide) rfl
  refine ⟨_, if_pos ⟨(hmin.lt_iff hx).mpr ?_, (hx.lt_iff hmax).mpr ?_⟩, hx.abs_toInt32_le hn hle⟩
  · linarith
  · linarith

theorem checkedAdd_of_small {a b : Int32} (ha : |a.toInt| ≤ 2 ^ 30) (hb : |b.toInt| < 2 ^ 30) :
    ∃ c, checkedAdd a b = some c := by
  rw [abs_le] at ha
  rw [abs_lt] at hb
  exact ⟨_, if_pos (by omega)⟩

theorem stands_angle {frameIndex : UInt64} (hk : k ≤ 900)
    (hn : frameIndex.toNat < 2 ^ (k + 3)) : ∃ x, Stands (angle frameIndex) x ∧ 0 ≤ x ∧ x ≤ 2 ^ k := by
  have hcast : (frameIndex.toNat : ℚ) < 2 ^ (k + 3) := by exact_mod_cast hn
  obtain ⟨y, hy, hnear⟩ := approx_toFloat frameIndex (onGrid_two_pow (k + 3) (by omega)) hcast
  have hy0 := hnear.nonneg (Nat.cast_nonneg _)
  have hyle := (abs_le.mp hnear.le).2
  have htenth : Stands 0.1 (7205759403792794 * 2 ^ (-56 : ℤ)) :=
    stands_of_unpack .positive (by decide) rfl
  have hnonneg : 0 ≤ y * (7205759403792794 * 2 ^ (-56 : ℤ)) := by positivity
  have hpow : (0 : ℚ) < 2 ^ k := by positivity
  have hlt : |y * (7205759403792794 * 2 ^ (-56 : ℤ))| < 2 ^ k := by
    rw [abs_of_nonneg hnonneg]
    rw [pow_add] at hyle
    norm_num at hyle ⊢
    linarith
  obtain ⟨x, hx, hxnear⟩ := hy.mul htenth (onGrid_two_pow k (by omega)) hlt
  exact ⟨x, hx, hxnear.nonneg hnonneg, (abs_le.mp hxnear.le).2⟩

/-- The angle of the cosine. -/
theorem stands_angle_add {frameIndex : UInt64} (hk : k ≤ 900) (hk0 : 1 ≤ k)
    (hn : frameIndex.toNat < 2 ^ (k + 3)) :
    ∃ x, Stands (angle frameIndex + 1.57079632679) x ∧ 0 ≤ x ∧ x ≤ 2 ^ (k + 1) := by
  obtain ⟨x, hx, hx0, hxle⟩ := stands_angle hk hn
  have hquarter : Stands 1.57079632679 (7074237752006388 * 2 ^ (-52 : ℤ)) :=
    stands_of_unpack .positive (by decide) rfl
  have hnonneg : 0 ≤ x + 7074237752006388 * 2 ^ (-52 : ℤ) := by positivity
  have hpow : (2 : ℚ) ^ 1 ≤ 2 ^ k := pow_le_pow_right₀ one_le_two hk0
  have hlt : |x + 7074237752006388 * 2 ^ (-52 : ℤ)| < 2 ^ (k + 1) := by
    rw [abs_of_nonneg hnonneg, pow_succ]
    norm_num at hpow ⊢
    linarith
  obtain ⟨y, hy, hnear⟩ := hx.add hquarter (onGrid_two_pow (k + 1) (by omega)) hlt
  exact ⟨y, hy, hnear.nonneg hnonneg, (abs_le.mp hnear.le).2⟩

/-- One of the loops that wrap the angle of a frame and the angle of its cosine goes on for ever. -/
def Spinning (frameIndex : UInt64) : Prop :=
  Endless (angle frameIndex + 1.57079632679) ∨ Endless (angle frameIndex)

/-- The only way for a cursor not to have a place is that it is never found. -/
theorem position_eq_none_iff (frameIndex : UInt64) :
    position frameIndex = none ↔ Spinning frameIndex := by
  have hpi := pi_bounds.1
  have hn : frameIndex.toNat < 2 ^ (61 + 3) := frameIndex.toNat_lt
  obtain ⟨x, hx, hx0, -⟩ := stands_angle (by norm_num) hn
  obtain ⟨y, hy, hy0, -⟩ := stands_angle_add (by norm_num) (by norm_num) hn
  have hsin : Wrapping (angle frameIndex) := ⟨x, hx, by linarith⟩
  have hcos : Wrapping (angle frameIndex + 1.57079632679) := ⟨y, hy, by linarith⟩
  have hradius : Small 200 200 :=
    ⟨_, stands_of_unpack .positive (m := 7036874417766400) (e := -45) (by decide) rfl, by
      norm_num [signed]⟩
  have hplace {g : Float} (base : Int32) (hb : |base.toInt| ≤ 2 ^ 30) (hg : Small 1249 g) :
      ∃ d p, castInt32 (200 * g) = some d ∧ checkedAdd base d = some p := by
    obtain ⟨d, hd, hdle⟩ := castInt32_of_small (hradius.mul hg (by norm_num)) (by norm_num)
    obtain ⟨p, hp⟩ := checkedAdd_of_small (b := d) hb (by push_cast at hdle; omega)
    exact ⟨d, p, hd, hp⟩
  unfold position fastCos Spinning
  rcases hcos.fastSin_cases with ⟨hends, hc⟩ | ⟨hends, c, hc, hcsmall⟩
  · rw [hc]
    exact iff_of_true rfl (.inl hends)
  obtain ⟨dx, px, hdx, hpx⟩ := hplace (.ofNat (kStubWidth / 2)) (by decide) hcsmall
  rcases hsin.fastSin_cases with ⟨hends', hs⟩ | ⟨hends', s, hs, hssmall⟩
  · simp only [hc, hs, hdx, hpx, Option.bind_eq_bind, Option.bind_some, Option.bind_none]
    exact iff_of_true trivial (.inr hends')
  obtain ⟨dy, py, hdy, hpy⟩ := hplace (.ofNat (kStubHeight / 2)) (by decide) hssmall
  simp only [hc, hs, hdx, hpx, hdy, hpy, Option.bind_eq_bind, Option.bind_some]
  exact iff_of_false (Option.some_ne_none _) (not_or.mpr ⟨hends, hends'⟩)

/-- The place of a cursor is found unless very many frames are over. -/
theorem not_spinning {frameIndex : UInt64} (hn : frameIndex.toNat < 2 ^ 56) :
    ¬ Spinning frameIndex := by
  obtain ⟨x, hx, -, hxle⟩ := stands_angle (k := 53) (by norm_num) hn
  obtain ⟨y, hy, -, hyle⟩ := stands_angle_add (k := 53) (by norm_num) (by norm_num) hn
  have hsin : Turning (2 ^ 52) (angle frameIndex) := by
    refine ⟨le_rfl, x, hx, hxle.trans ?_⟩
    norm_num
  have hcos : Turning (2 ^ 52) (angle frameIndex + 1.57079632679) := by
    refine ⟨le_rfl, y, hy, hyle.trans ?_⟩
    norm_num
  exact not_or.mpr ⟨hcos.not_endless, hsin.not_endless⟩

end Redesk.Capture
