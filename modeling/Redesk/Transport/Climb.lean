import Redesk.Transport.Congestion

/-! Clean reports: how far a sequence of them raises the target bitrate. -/
namespace Redesk.Transport.StubCongestionController
open Machine

variable {c : StubCongestionController} {h : List Call} {r : FeedbackReport}
  {rs qs : List FeedbackReport}

/-- A report without overuse and without a loss. -/
structure Clean (r : FeedbackReport) : Prop where
  delay : r.queuingDelayUs ≤ 30000
  lost : r.lostPackets = 0

/-- The controller when it has got the reports. -/
def fed (c : StubCongestionController) (rs : List FeedbackReport) : StubCongestionController :=
  final step c (rs.map .onFeedback)

/-- The reports raise the target by 500 each until it is at the ceiling, and never lower it. -/
structure Climbs (c : StubCongestionController) (rs : List FeedbackReport) : Prop where
  reaches : ∀ qs, qs <+: rs → (c.fed qs).targetBitrateKbps.toNat =
    min c.maxKbps.toNat (c.targetBitrateKbps.toNat + 500 * qs.length)
  kept : ∀ qs r, qs ++ [r] <+: rs →
    (c.fed qs).targetBitrateKbps ≤ (c.fed (qs ++ [r])).targetBitrateKbps

theorem fed_snoc : c.fed (qs ++ [r]) = (c.fed qs).onFeedback r := by
  rw [fed, List.map_append, final_append]
  rfl

/-- Reports leave the bounds as they are. -/
theorem fed_bounds (c : StubCongestionController) (qs : List FeedbackReport) :
    (c.fed qs).minKbps = c.minKbps ∧ (c.fed qs).maxKbps = c.maxKbps := by
  induction qs using List.reverseRecOn with
  | nil => exact ⟨rfl, rfl⟩
  | append_singleton qs r ih =>
    rw [fed_snoc]
    exact ih

theorem bounded_fed (hb : Bounded c) (qs : List FeedbackReport) : Bounded (c.fed qs) := by
  induction qs using List.reverseRecOn with
  | nil => exact hb
  | append_singleton qs r ih =>
    rw [fed_snoc]
    exact bounded_step ih (.onFeedback r)

/-- One more clean report, in 32 bits. -/
theorem toNat_fed_snoc (hb : Bounded c) (hr : Clean r) :
    (c.fed (qs ++ [r])).targetBitrateKbps.toNat = max c.minKbps.toNat
      (min c.maxKbps.toNat (((c.fed qs).targetBitrateKbps.toNat + 500) % 2 ^ 32)) := by
  obtain ⟨hmin, hmax⟩ := fed_bounds c qs
  rw [fed_snoc, ← hmin, ← hmax]
  exact toNat_onFeedback (bounded_fed hb qs) hr.delay (lossRatio_of_lost_eq_zero hr.lost)

/-- The next report does not wrap the target, or the bounds leave it no choice. -/
theorem reaches_snoc (hb : Bounded c) (hr : Clean r)
    (hq : (c.fed qs).targetBitrateKbps.toNat =
      min c.maxKbps.toNat (c.targetBitrateKbps.toNat + 500 * qs.length))
    (hroom : c.minKbps = c.maxKbps ∨ c.maxKbps.toNat + 500 < 2 ^ 32 ∨
      c.targetBitrateKbps.toNat + 500 * (qs.length + 1) < 2 ^ 32) :
    (c.fed (qs ++ [r])).targetBitrateKbps.toNat =
      min c.maxKbps.toNat (c.targetBitrateKbps.toNat + 500 * (qs.length + 1)) := by
  have hleast : c.minKbps.toNat ≤ c.targetBitrateKbps.toNat := UInt32.le_iff_toNat_le.mp hb.least
  have hfloor := UInt32.le_iff_toNat_le.mp hb.bounds
  rw [toNat_fed_snoc hb hr, hq]
  rcases hroom with heq | hroom | hroom
  · rw [heq] at hleast ⊢
    omega
  · omega
  · omega

/-- Clean reports raise the target to the ceiling and keep it there, just when the ceiling is the
floor, or leaves room for an increase, or is not reached that far. -/
theorem climbs_iff (hr : Run h c) (hrs : ∀ r ∈ rs, Clean r) : Climbs c rs ↔
    c.minKbps = c.maxKbps ∨ c.maxKbps.toNat + 500 < 2 ^ 32 ∨
      c.targetBitrateKbps.toNat + 500 * rs.length < 2 ^ 32 := by
  have hb := bounded_run hr
  constructor
  · intro hclimbs
    by_contra hnone
    rw [not_or, not_or, not_lt, not_lt] at hnone
    obtain ⟨hne, hceiling, hfar⟩ := hnone
    rcases List.eq_nil_or_concat rs with rfl | ⟨qs, r, rfl⟩
    · have hword := c.targetBitrateKbps.toNat_lt
      simp at hfar
      omega
    · -- the last report adds to a target that is within 500 of the largest word
      rw [List.concat_eq_append] at *
      have hlast := hclimbs.reaches _ List.prefix_rfl
      have hbefore := hclimbs.reaches qs (List.prefix_append qs [r])
      rw [toNat_fed_snoc hb (hrs r (by simp)), hbefore] at hlast
      rw [List.length_append, List.length_singleton] at hlast hfar
      have hfloor := UInt32.le_iff_toNat_le.mp hb.bounds
      have hne : c.minKbps.toNat ≠ c.maxKbps.toNat := fun h => hne (UInt32.toNat_inj.mp h)
      have hword := c.maxKbps.toNat_lt
      omega
  · intro hroom
    have hreaches (qs : List FeedbackReport) (hqs : qs <+: rs) :
        (c.fed qs).targetBitrateKbps.toNat =
          min c.maxKbps.toNat (c.targetBitrateKbps.toNat + 500 * qs.length) := by
      induction qs using List.reverseRecOn with
      | nil => exact (min_eq_right (UInt32.le_iff_toNat_le.mp hb.most)).symm
      | append_singleton qs r ih =>
        have hle := hqs.length_le
        rw [List.length_append, List.length_singleton] at hle ⊢
        refine reaches_snoc hb (hrs r (hqs.subset (by simp)))
          (ih ((List.prefix_append qs [r]).trans hqs)) ?_
        exact hroom.imp_right (.imp_right fun hroom => by omega)
    refine ⟨hreaches, fun qs r hqs => ?_⟩
    rw [UInt32.le_iff_toNat_le, hreaches _ hqs,
      hreaches _ ((List.prefix_append qs [r]).trans hqs), List.length_append]
    omega

theorem climbs_default : Climbs {} [{ receivedPackets := 10 }, {}] :=
  (climbs_iff .nil (by
    intro r hr
    simp only [List.mem_cons, List.not_mem_nil, or_false] at hr
    rcases hr with rfl | rfl <;> constructor <;> decide)).mpr (.inr (.inl (by decide)))

/-- At the top of the range the sum wraps, and a clean report drops the target to 204. -/
theorem not_climbs_top : ¬ Climbs
    (final step {} [.setBitrateBounds 4294967000 4294967295, .setBitrateBounds 0 4294967295])
    [{}] := by
  intro hclimbs
  exact absurd (hclimbs.kept [] {} List.prefix_rfl) (by decide)

end Redesk.Transport.StubCongestionController
