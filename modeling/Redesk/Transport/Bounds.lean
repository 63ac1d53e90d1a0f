import Redesk.Transport.Congestion
import Redesk.Machine.Past

/-! The target bitrate against the bounds in force, whatever a decrease makes of the target. -/
namespace Redesk.Transport.StubCongestionController
open Machine

variable {c c' : StubCongestionController} {ops : List Op} {op : Op} {h : List Call}
  {d v lo hi : UInt32} {r : FeedbackReport}

/-- `std::clamp`, which has no value for bounds that are out of order. -/
def checkedClamp (v lo hi : UInt32) : Option UInt32 :=
  if hi < lo then none else some (clamp v lo hi)

/-- A call, where a decrease yields `d`. -/
def checkedStep (d : UInt32) (c : StubCongestionController) :
    Op → Option StubCongestionController
  | .onFeedback r => (checkedClamp (nextTarget d c r) c.minKbps c.maxKbps).map
      fun target => { c with targetKbps := target }
  | .setBitrateBounds minKbps maxKbps =>
    (checkedClamp c.targetKbps minKbps (max maxKbps minKbps)).map
      fun _ => c.setBitrateBounds minKbps maxKbps

/-- What a new controller comes to when each decrease yields some value up to the old target. -/
inductive Reached : List Op → StubCongestionController → Prop where
  | start : Reached [] {}
  | snoc {ops : List Op} {c c' : StubCongestionController} {op : Op} {d : UInt32}
      (before : Reached ops c) (decrease : d ≤ c.targetKbps)
      (next : checkedStep d c op = some c') : Reached (ops ++ [op]) c'

/-- The bounds that a call sets. -/
def boundsSet : Op → Option (UInt32 × UInt32)
  | .setBitrateBounds minKbps maxKbps => some (minKbps, max maxKbps minKbps)
  | .onFeedback _ => none

/-- The bounds that were last set, or those of a new controller. -/
def boundsInForce (ops : List Op) : UInt32 × UInt32 := (latest boundsSet ops).getD (500, 50000)

/-- The target lies between the bounds in force, and every call clamps with bounds in order. -/
structure Within (ops : List Op) (c : StubCongestionController) : Prop where
  ordered : (boundsInForce ops).1 ≤ (boundsInForce ops).2
  least : (boundsInForce ops).1 ≤ c.targetBitrateKbps
  most : c.targetBitrateKbps ≤ (boundsInForce ops).2
  clamps : ∀ d op, (checkedStep d c op).isSome

theorem checkedClamp_of_le (hlo : lo ≤ hi) : checkedClamp v lo hi = some (clamp v lo hi) :=
  if_neg (UInt32.not_lt.mpr hlo)

theorem checkedStep_onFeedback (hb : Bounded c) : checkedStep d c (.onFeedback r) =
    some { c with targetKbps := clamp (nextTarget d c r) c.minKbps c.maxKbps } := by
  rw [checkedStep, checkedClamp_of_le hb.bounds]
  rfl

theorem checkedStep_setBitrateBounds : checkedStep d c (.setBitrateBounds lo hi) =
    some (c.setBitrateBounds lo hi) := by
  rw [checkedStep]
  rw [checkedClamp_of_le (le_max_bounds lo hi)]
  rfl

/-- The controller itself is one whose decreases yield up to the old target. -/
theorem reached_of_run (hr : Run h c) : Reached (h.map (·.op)) c := by
  induction hr with
  | nil => exact .start
  | @snoc h c hr op ih =>
    rw [List.map_append]
    refine ih.snoc (toUInt32_mul_beta_le c.targetKbps) ?_
    cases op with
    | onFeedback r => exact checkedStep_onFeedback (bounded_run hr)
    | setBitrateBounds lo hi => exact checkedStep_setBitrateBounds

theorem reached_final (ops : List Op) : Reached ops (final step {} ops) := by
  have hr : Run (calls step {} ops) (final step {} ops) := run_calls _ _
  have hreached := reached_of_run hr
  rwa [map_op_calls] at hreached

/-- The bounds of the controller are those in force, in order, with the target between them. -/
structure InForce (ops : List Op) (c : StubCongestionController) : Prop where
  bounded : Bounded c
  bounds : (c.minKbps, c.maxKbps) = boundsInForce ops

theorem inForce_step (hi : InForce ops c) (hs : checkedStep d c op = some c') :
    InForce (ops ++ [op]) c' := by
  obtain ⟨hb, hbounds⟩ := hi
  cases op with
  | onFeedback r =>
    rw [checkedStep_onFeedback hb] at hs
    obtain rfl := Option.some.inj hs
    refine ⟨bounded_clamp hb.bounds, ?_⟩
    rw [boundsInForce, latest_snoc]
    exact hbounds
  | setBitrateBounds lo hi =>
    rw [checkedStep_setBitrateBounds] at hs
    obtain rfl := Option.some.inj hs
    refine ⟨bounded_clamp (le_max_bounds lo hi), ?_⟩
    rw [boundsInForce, latest_snoc]
    rfl

theorem inForce_reached (hr : Reached ops c) : InForce ops c := by
  induction hr with
  | start => exact ⟨by constructor <;> decide, rfl⟩
  | snoc _ _ hs ih => exact inForce_step ih hs

theorem InForce.within (hi : InForce ops c) : Within ops c := by
  obtain ⟨hb, hbounds⟩ := hi
  constructor
  · rw [← hbounds]
    exact hb.bounds
  · rw [← hbounds]
    exact hb.least
  · rw [← hbounds]
    exact hb.most
  · intro d op
    cases op with
    | onFeedback r =>
      rw [checkedStep_onFeedback hb]
      rfl
    | setBitrateBounds lo hi =>
      rw [checkedStep_setBitrateBounds]
      rfl

/-- In every order of reports and bound changes the target stays within the bounds in force. -/
theorem within_reached (hr : Reached ops c) : Within ops c := (inForce_reached hr).within

/-- The target of the controller itself, whose decreases go through a double, does. -/
theorem within_run (hr : Run h c) : Within (h.map (·.op)) c :=
  (inForce_reached (reached_of_run hr)).within

/-- Bounds given the wrong way round, and a report of queuing. -/
theorem within_inverted : Within
    [.setBitrateBounds 9000 100, .onFeedback { queuingDelayUs := 40000 }]
    (final step {} [.setBitrateBounds 9000 100, .onFeedback { queuingDelayUs := 40000 }]) :=
  within_reached (reached_final _)

end Redesk.Transport.StubCongestionController
