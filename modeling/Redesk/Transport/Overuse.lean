import Redesk.Transport.Congestion

/-! Loss and queuing: which reports of them raise the target bitrate nevertheless. -/
namespace Redesk.Transport.StubCongestionController
open Machine

variable {c : StubCongestionController} {h : List Call} {r : FeedbackReport}

/-- The queuing delay or the lost fraction is over its threshold. -/
def Congested (r : FeedbackReport) : Prop :=
  r.queuingDelayUs > 30000 ∨
    (1 / 10 : ℚ) < r.lostPackets.toNat / (r.lostPackets.toNat + r.receivedPackets.toNat)

theorem lost_of_fraction
    (hf : (1 / 10 : ℚ) < r.lostPackets.toNat / (r.lostPackets.toNat + r.receivedPackets.toNat)) :
    r.lostPackets.toNat + r.receivedPackets.toNat < 10 * r.lostPackets.toNat := by
  have hpos : (0 : ℚ) < r.lostPackets.toNat + r.receivedPackets.toNat := by
    by_contra hzero
    have hz : (r.lostPackets.toNat + r.receivedPackets.toNat : ℚ) = 0 :=
      le_antisymm (not_lt.mp hzero) (by positivity)
    rw [hz, div_zero] at hf
    norm_num at hf
  rw [lt_div_iff₀ hpos] at hf
  have hlt : (r.lostPackets.toNat + r.receivedPackets.toNat : ℚ) < 10 * r.lostPackets.toNat := by
    linarith
  exact_mod_cast hlt

/-- Nothing was received and packets were lost, which counts as no loss, and the target has room to
rise. -/
structure Blackout (c : StubCongestionController) (r : FeedbackReport) : Prop where
  delay : r.queuingDelayUs ≤ 30000
  received : r.receivedPackets = 0
  lost : r.lostPackets ≠ 0
  below : c.targetKbps < c.maxKbps
  room : c.targetKbps.toNat + 500 < 2 ^ 32

theorem congested_of_blackout (hb : Blackout c r) : Congested r := by
  have hpos := one_le_toNat hb.lost
  have hall : (r.lostPackets.toNat : ℚ) / (r.lostPackets.toNat + r.receivedPackets.toNat) = 1 := by
    rw [hb.received, UInt32.toNat_zero, Nat.cast_zero, add_zero]
    exact div_self (by linarith)
  refine .inr ?_
  rw [hall]
  norm_num

/-- Loss or queuing raises the target of no controller, unless nothing at all was received. -/
theorem notRaised_iff (hr : Run h c) (r : FeedbackReport) :
    (Congested r → (c.onFeedback r).targetBitrateKbps ≤ c.targetBitrateKbps) ↔ ¬ Blackout c r := by
  have hb := bounded_run hr
  have hleast := UInt32.le_iff_toNat_le.mp hb.least
  have hmost := UInt32.le_iff_toNat_le.mp hb.most
  constructor
  · intro hle hdark
    have hle := UInt32.le_iff_toNat_le.mp (hle (congested_of_blackout hdark))
    have hbelow := UInt32.lt_iff_toNat_lt.mp hdark.below
    have hroom := hdark.room
    have hrise := toNat_onFeedback hb hdark.delay (lossRatio_of_received_eq_zero hdark.received)
    simp only [targetBitrateKbps] at hle
    omega
  · intro hn hcong
    by_cases hd : r.queuingDelayUs > 30000
    · exact onFeedback_le hb (.inl hd)
    have hlost := lost_of_fraction (hcong.resolve_left hd)
    by_cases hreceived : r.receivedPackets = 0
    · rw [Int64.not_lt] at hd
      have hrise := toNat_onFeedback hb hd (lossRatio_of_received_eq_zero hreceived)
      rw [UInt32.le_iff_toNat_le]
      simp only [targetBitrateKbps]
      by_contra hraised
      refine hn ⟨hd, hreceived, ?_, ?_, ?_⟩
      · rintro hzero
        rw [hzero] at hlost
        simp at hlost
      · rw [UInt32.lt_iff_toNat_lt]
        omega
      · omega
    · exact onFeedback_le hb (.inr (lossHigh_lt_lossRatio hreceived hlost))

theorem notRaised_delayed :
    (onFeedback {} { queuingDelayUs := 40000 }).targetBitrateKbps ≤ targetBitrateKbps {} := by
  refine (notRaised_iff .nil _).mpr ?_ (.inl (by decide))
  intro hdark
  exact absurd hdark.delay (by decide)

/-- One lost packet and none received raise the target of a new controller. -/
theorem not_notRaised_blackout : ¬ (Congested { lostPackets := 1 } →
    (onFeedback {} { lostPackets := 1 }).targetBitrateKbps ≤ targetBitrateKbps {}) := by
  intro hle
  have hdark : Blackout {} { lostPackets := 1 } := by constructor <;> decide
  exact absurd (hle (congested_of_blackout hdark)) (by decide)

end Redesk.Transport.StubCongestionController
