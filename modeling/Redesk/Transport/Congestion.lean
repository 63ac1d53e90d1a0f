import Redesk.Common.Types
import Redesk.Machine.Binary64
import Redesk.Machine.Runs

/-! The congestion controller: a target bitrate between two bounds, which reports about the path
lower and raise. -/
namespace Redesk.Transport
open Machine Binary64

structure FeedbackReport where
  lostPackets : UInt32 := 0
  receivedPackets : UInt32 := 0
  queuingDelayUs : Int64 := 0
  deriving DecidableEq

def kDelayOveruseUs : Int64 := 30000

def kLossHigh : Float := 0.10

def kLossLow : Float := 0.02

def kAdditiveIncreaseKbps : UInt32 := 500

/-- The sum is one of 32 bits. -/
def lossRatio (r : FeedbackReport) : Float :=
  if r.receivedPackets > 0 then
    r.lostPackets.toFloat / (r.lostPackets + r.receivedPackets).toFloat
  else 0.0

def clamp (v lo hi : UInt32) : UInt32 := if v < lo then lo else if hi < v then hi else v

structure StubCongestionController where
  minKbps : UInt32 := 500
  maxKbps : UInt32 := 50000
  targetKbps : UInt32 := 8000
  deriving DecidableEq, Repr

namespace StubCongestionController

/-- The target before it is clamped, where a decrease yields `d`; an increase is one of 32 bits. -/
def nextTarget (d : UInt32) (c : StubCongestionController) (r : FeedbackReport) : UInt32 :=
  if r.queuingDelayUs > kDelayOveruseUs ∨ lossRatio r > kLossHigh then d
  else if lossRatio r < kLossLow then c.targetKbps + kAdditiveIncreaseKbps
  else c.targetKbps

/-- A decrease goes through a double. -/
def onFeedback (c : StubCongestionController) (r : FeedbackReport) : StubCongestionController :=
  let target := nextTarget (c.targetKbps.toFloat * 0.85).toUInt32 c r
  { c with targetKbps := clamp target c.minKbps c.maxKbps }

def targetBitrateKbps (c : StubCongestionController) : UInt32 := c.targetKbps

def setBitrateBounds (c : StubCongestionController) (minKbps maxKbps : UInt32) :
    StubCongestionController :=
  let maxKbps := max maxKbps minKbps
  { minKbps := minKbps, maxKbps := maxKbps, targetKbps := clamp c.targetKbps minKbps maxKbps }

inductive Op where
  | onFeedback (r : FeedbackReport)
  | setBitrateBounds (minKbps maxKbps : UInt32)
  deriving DecidableEq

def step (c : StubCongestionController) : Op → Unit × StubCongestionController
  | .onFeedback r => ((), c.onFeedback r)
  | .setBitrateBounds minKbps maxKbps => ((), c.setBitrateBounds minKbps maxKbps)

abbrev Call := Machine.Call StubCongestionController Op Unit

/-- The runs of a new controller. -/
abbrev Run : List Call → StubCongestionController → Prop := Machine.Run step {}

variable {c : StubCongestionController} {h : List Call} {r : FeedbackReport}
  {rs qs : List FeedbackReport} {v lo hi t : UInt32}

theorem toNat_clamp (hlo : lo ≤ hi) :
    (clamp v lo hi).toNat = max lo.toNat (min hi.toNat v.toNat) := by
  rw [UInt32.le_iff_toNat_le] at hlo
  unfold clamp
  simp only [UInt32.lt_iff_toNat_lt]
  split_ifs <;> omega

theorem toNat_max : (max lo hi).toNat = max lo.toNat hi.toNat := by
  show (if lo ≤ hi then hi else lo).toNat = _
  simp only [UInt32.le_iff_toNat_le]
  split_ifs <;> omega

theorem le_max_bounds (lo hi : UInt32) : lo ≤ max hi lo := by
  rw [UInt32.le_iff_toNat_le, toNat_max]
  exact le_max_right _ _

structure Bounded (c : StubCongestionController) : Prop where
  least : c.minKbps ≤ c.targetKbps
  most : c.targetKbps ≤ c.maxKbps

theorem Bounded.bounds (hb : Bounded c) : c.minKbps ≤ c.maxKbps :=
  UInt32.le_trans hb.least hb.most

theorem bounded_clamp (hlo : lo ≤ hi) : Bounded ⟨lo, hi, clamp v lo hi⟩ := by
  constructor
  · rw [UInt32.le_iff_toNat_le, toNat_clamp hlo]
    exact le_max_left _ _
  · rw [UInt32.le_iff_toNat_le, toNat_clamp hlo]
    rw [UInt32.le_iff_toNat_le] at hlo
    exact max_le hlo (min_le_left _ _)

theorem bounded_step (hb : Bounded c) (op : Op) : Bounded (step c op).2 := by
  cases op with
  | onFeedback r => exact bounded_clamp hb.bounds
  | setBitrateBounds lo hi => exact bounded_clamp (le_max_bounds lo hi)

/-- The target stays within the bounds, which are always in order. -/
theorem bounded_run (hr : Run h c) : Bounded c := by
  induction hr with
  | nil => constructor <;> decide
  | snoc hr op ih => exact bounded_step ih op

theorem one_le_toNat (ht : t ≠ 0) : (1 : ℚ) ≤ t.toNat := by
  have hpos : t.toNat ≠ 0 := fun h => ht (UInt32.toNat_inj.mp h)
  exact_mod_cast Nat.one_le_iff_ne_zero.mpr hpos

theorem isPos_lossHigh : IsPos kLossHigh (7205759403792794 * 2 ^ (-56 : ℤ)) :=
  ⟨7205759403792794, -56, by norm_num, by rfl, by norm_num, by norm_num, rfl⟩

theorem isPos_beta : IsPos 0.85 (7656119366529843 * 2 ^ (-53 : ℤ)) :=
  ⟨7656119366529843, -53, by norm_num, by rfl, by norm_num, by norm_num, rfl⟩

/-- The multiplicative decrease raises no target. -/
theorem toUInt32_mul_beta_le (t : UInt32) : (t.toFloat * 0.85).toUInt32 ≤ t := by
  by_cases ht : t = 0
  · subst ht
    decide
  have hone : (1 : ℚ) ≤ t.toNat := one_le_toNat ht
  have hword : (t.toNat : ℚ) < 2 ^ 32 := by exact_mod_cast t.toNat_lt
  have hrange : InRange (t.toNat * (7656119366529843 * 2 ^ (-53 : ℤ))) := by
    apply inRange_of_bounds <;> norm_num <;> linarith
  obtain ⟨z, hz, hnear⟩ := isPos_mul (isPos_toFloat t ht) isPos_beta hrange
  have hlt : z < t.toNat + 1 := by
    have hle := (abs_le.mp hnear).2
    norm_num at hle
    linarith
  rw [UInt32.le_iff_toNat_le, toNat_toUInt32 hz]
  have hfloor : ⌊z⌋₊ < t.toNat + 1 :=
    (Nat.floor_lt' (Nat.succ_ne_zero _)).mpr (by exact_mod_cast hlt)
  omega

/-- A quotient above a tenth is above it by more than a rounding error. -/
theorem lossHigh_lt_div {l w : UInt32} (hl : l ≠ 0) (hw : w ≠ 0) (h : w.toNat < 10 * l.toNat) :
    kLossHigh < l.toFloat / w.toFloat := by
  have hpos : (1 : ℚ) ≤ w.toNat := one_le_toNat hw
  have hlost : (l.toNat : ℚ) < 2 ^ 32 := by exact_mod_cast l.toNat_lt
  have hword : (w.toNat : ℚ) < 2 ^ 32 := by exact_mod_cast w.toNat_lt
  have hsum : (w.toNat : ℚ) + 1 ≤ 10 * l.toNat := by exact_mod_cast h
  have hgap : (1 / 10 + 1 / 2 ^ 36 : ℚ) ≤ l.toNat / w.toNat := by
    rw [le_div_iff₀ (by linarith)]
    linarith
  have hmost : (l.toNat / w.toNat : ℚ) ≤ 2 ^ 32 := by
    rw [div_le_iff₀ (by linarith)]
    linarith
  have hrange : InRange (l.toNat / w.toNat) := by
    apply inRange_of_bounds <;> norm_num <;> linarith
  obtain ⟨z, hz, hnear⟩ := isPos_div (isPos_toFloat l hl) (isPos_toFloat w hw) hrange
  rw [lt_iff isPos_lossHigh hz]
  have hle := (abs_le.mp hnear).1
  norm_num at hle ⊢
  linarith

/-- Where packets were received, a lost fraction above a tenth is seen, however the sum wraps. -/
theorem lossHigh_lt_lossRatio (hr : r.receivedPackets ≠ 0)
    (hf : r.lostPackets.toNat + r.receivedPackets.toNat < 10 * r.lostPackets.toNat) :
    kLossHigh < lossRatio r := by
  have hlost : r.lostPackets ≠ 0 := by
    intro hzero
    rw [hzero] at hf
    simp at hf
  rw [lossRatio, if_pos (UInt32.pos_iff_ne_zero.mpr hr)]
  by_cases hw : r.lostPackets + r.receivedPackets = 0
  · rw [hw]
    exact lt_div_zero (isPos_toFloat _ hlost) isPos_lossHigh
  · refine lossHigh_lt_div hlost hw ?_
    rw [UInt32.toNat_add]
    exact (Nat.mod_le _ _).trans_lt hf

/-- Without a loss the fraction is zero. -/
theorem lossRatio_of_lost_eq_zero (hl : r.lostPackets = 0) : lossRatio r = 0.0 := by
  unfold lossRatio
  split
  · rename_i hreceived
    rw [hl, UInt32.zero_add]
    exact zero_div (isPos_toFloat _ (UInt32.pos_iff_ne_zero.mp hreceived))
  · rfl

theorem not_lossHigh_lt_zero : ¬ kLossHigh < 0.0 := by decide

theorem zero_lt_lossLow : 0.0 < kLossLow := by decide

/-- Without packets received the fraction is zero too. -/
theorem lossRatio_of_received_eq_zero (hr : r.receivedPackets = 0) : lossRatio r = 0.0 := by
  rw [lossRatio, hr]
  exact if_neg (by decide)

theorem onFeedback_le (hb : Bounded c)
    (ho : r.queuingDelayUs > kDelayOveruseUs ∨ lossRatio r > kLossHigh) :
    (c.onFeedback r).targetBitrateKbps ≤ c.targetBitrateKbps := by
  have hdecrease := toUInt32_mul_beta_le c.targetKbps
  have hleast := hb.least
  simp only [onFeedback, nextTarget, if_pos ho, targetBitrateKbps]
  rw [UInt32.le_iff_toNat_le] at hdecrease hleast ⊢
  rw [toNat_clamp hb.bounds]
  omega

/-- A report without overuse that shows no loss adds to the target, in 32 bits. -/
theorem toNat_onFeedback (hb : Bounded c) (hd : r.queuingDelayUs ≤ 30000)
    (hl : lossRatio r = 0.0) : (c.onFeedback r).targetKbps.toNat =
      max c.minKbps.toNat (min c.maxKbps.toNat ((c.targetKbps.toNat + 500) % 2 ^ 32)) := by
  have ho : ¬ (r.queuingDelayUs > kDelayOveruseUs ∨ lossRatio r > kLossHigh) := by
    rintro (hover | hover)
    · exact absurd hd (Int64.not_le.mpr hover)
    · rw [hl] at hover
      exact not_lossHigh_lt_zero hover
  have hlow : lossRatio r < kLossLow := by
    rw [hl]
    exact zero_lt_lossLow
  simp only [onFeedback, nextTarget, if_neg ho, if_pos hlow]
  rw [toNat_clamp hb.bounds, UInt32.toNat_add]
  rfl

end StubCongestionController

end Redesk.Transport
