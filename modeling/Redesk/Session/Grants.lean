import Redesk.Session.Provenance

/-! What a session holds over a run: grants accumulate, and the indicator looks at one bit of
them. -/
namespace Redesk

theorem bits_control : Mask.bits Capabilities.control = {1} := by
  have hc : Capabilities.control = BitVec.twoPow 32 1 := by decide
  ext i
  rw [Mask.mem_bits, hc, BitVec.getLsbD_twoPow]
  simp
  omega

theorem bits_inputInjection : Mask.bits Capabilities.inputInjection = {5} := by
  have hc : Capabilities.inputInjection = BitVec.twoPow 32 5 := by decide
  ext i
  rw [Mask.mem_bits, hc, BitVec.getLsbD_twoPow]
  simp
  omega

namespace SessionManager
open Machine

variable {clock : ℕ → UInt64} {m : SessionManager} {h : List Call} {op : Op} {id : UInt64}

/-- The capabilities that a successful authorization of the session grants. -/
def grantOf (id : UInt64) (c : Call) : Option Capabilities :=
  match c.op with
  | .authorize i requested =>
    if i = id ∧ c.res = .status .success then some (clamp requested c.pre.ceiling) else none
  | _ => none

theorem grantOf_eq {caps : Capabilities} : grantOf id (call (step clock) m op) = some caps ↔
    m.effect op = .activate id caps := by
  constructor
  · intro hg
    cases op with
    | authorize i r =>
      obtain ⟨⟨rfl, hres⟩, hcaps⟩ := Option.ite_none_right_eq_some.mp hg
      obtain rfl := Option.some.inj hcaps
      obtain ⟨hk, ha⟩ := (authorize_success_iff clock m).mp hres
      exact effect_authorize hk ha
    | _ => cases hg
  · intro he
    obtain ⟨r, rfl, hk, ha, rfl⟩ := effect_eq_activate he
    have hres := (authorize_success_iff clock m).mpr ⟨hk, ha⟩
    simp only [grantOf, call_op, call_res, call_pre, hres, and_self, if_true]

theorem grantOf_eq_none (he : ∀ caps, m.effect op ≠ .activate id caps) :
    grantOf id (call (step clock) m op) = none := by
  rw [Option.eq_none_iff_forall_ne_some]
  intro caps hg
  exact he caps (grantOf_eq.mp hg)

/-- What an active session holds is what its latest authorization granted. -/
def LatestGrant (h : List Call) : Prop :=
  Along (fun a c => ∀ id s, c.post.find id = some s → s.state = .active →
    ∃ caps, latest (grantOf id) (a ++ [c]) = some caps ∧ s.granted = caps) h

/-- A grant that leaves out something the session holds. -/
def Narrows (m : SessionManager) (op : Op) : Prop :=
  ∃ id requested s, op = .authorize id requested ∧ m.find id = some s ∧
    allowedBits requested m.ceiling ≠ 0 ∧ s.granted &&& ~~~clamp requested m.ceiling ≠ 0

variable (clock) in
theorem not_narrows_iff : ¬ Narrows m op ↔
    ∀ id caps, grantOf id (call (step clock) m op) = some caps →
      ∃ s, m.find id = some s ∧ s.granted ||| caps = caps := by
  constructor
  · intro hn id caps hg
    obtain ⟨r, hop, hk, ha, rfl⟩ := effect_eq_activate (grantOf_eq.mp hg)
    obtain ⟨s, hs⟩ := Option.isSome_iff_exists.mp hk
    refine ⟨s, hs, Mask.or_eq_right_iff.mpr (Mask.and_not_eq_zero_iff.mp ?_)⟩
    by_contra hne
    exact hn ⟨id, r, s, hop, hs, ha, hne⟩
  · rintro hg ⟨id, r, s, rfl, hs, ha, hne⟩
    have he := effect_authorize (Option.isSome_of_eq_some hs) ha
    obtain ⟨t, ht, hor⟩ := hg id _ (grantOf_eq.mpr he)
    obtain rfl : s = t := find_unique hs ht
    exact hne (Mask.and_not_eq_zero_iff.mpr (Mask.or_eq_right_iff.mp hor))

/-- The grants of a session so far, against what it holds. -/
def GrantsMatch (a : List Call) (m : SessionManager) : Prop :=
  ∀ id, (m.find id = none → latest (grantOf id) a = none) ∧
    ∀ s, m.find id = some s → (∀ caps, latest (grantOf id) a = some caps → s.granted = caps) ∧
      (s.state = .active → ∃ caps, latest (grantOf id) a = some caps)

theorem grantsMatch_step {a : List Call} (hi : GrantsMatch a m)
    (hq : ∀ id caps, grantOf id (call (step clock) m op) = some caps →
      ∃ s, m.find id = some s ∧ s.granted ||| caps = caps) :
    GrantsMatch (a ++ [call (step clock) m op]) (m.step clock op).2 := by
  intro id
  rw [latest_snoc]
  cases hs : m.find id with
  | none =>
    have hg : grantOf id (call (step clock) m op) = none := by
      apply grantOf_eq_none
      intro caps he
      obtain ⟨r, -, hk, -⟩ := effect_eq_activate he
      rw [hs] at hk
      cases hk
    rw [hg, (hi id).1 hs]
    refine ⟨fun _ => rfl, fun s hs' => ⟨fun caps hc => by simp at hc, fun ha => ?_⟩⟩
    obtain ⟨peer, -, -, rfl⟩ := session_created hs hs'
    cases ha
  | some s =>
    obtain ⟨s', hs', -, hcase⟩ := session_step clock op hs
    refine ⟨fun hn => (by rw [hs'] at hn; cases hn), fun t ht => ?_⟩
    obtain rfl : s' = t := find_unique hs' ht
    rcases hcase with ⟨hne, rfl⟩ | ⟨next, he, rfl⟩ | ⟨caps, he, rfl⟩
    · have hg : grantOf id (call (step clock) m op) = none := by
        apply grantOf_eq_none
        intro caps he
        apply hne
        rw [he]
        rfl
      rw [hg]
      exact (hi id).2 s' hs
    · have hg : grantOf id (call (step clock) m op) = none := by
        apply grantOf_eq_none
        intro caps he'
        rw [he] at he'
        cases he'
      rw [hg]
      refine ⟨((hi id).2 s hs).1, fun ha => ?_⟩
      obtain rfl : next = .active := ha
      rcases effect_eq_move he with ⟨hn, -⟩ | ⟨hn, -⟩ | ⟨hn, -⟩ <;> cases hn
    · have hg : grantOf id (call (step clock) m op) = some caps := grantOf_eq.mpr he
      obtain ⟨t, ht, hsub⟩ := hq id caps hg
      obtain rfl : s = t := find_unique hs ht
      rw [hg]
      refine ⟨fun caps' hc => ?_, fun _ => ⟨caps, rfl⟩⟩
      obtain rfl : caps = caps' := by simpa using hc
      exact hsub

/-- The latest consent is the whole grant, throughout a run, just when every authorization that
succeeds grants at least what the session holds already. -/
theorem latestGrant_iff (hr : Run clock h m) : LatestGrant h ↔
    ∀ c ∈ h, ¬ Narrows c.pre c.op := by
  rw [← along_forall]
  apply hr.along_iff (I := GrantsMatch)
  · intro id
    exact ⟨fun _ => rfl, fun s hs => by cases hs⟩
  · intro a m op _ hi hq
    exact grantsMatch_step hi ((not_narrows_iff clock).mp hq)
  intro a m op _ hi
  constructor
  · intro hp
    show ¬ Narrows m op
    rw [not_narrows_iff clock]
    intro id caps hg
    have he := grantOf_eq.mp hg
    obtain ⟨r, -, hk, -⟩ := effect_eq_activate he
    obtain ⟨s, hs⟩ := Option.isSome_iff_exists.mp hk
    have hpost : (m.step clock op).2.find id = some ((s.grant caps).setState .active) := by
      simp [he, hs, Effect.subject, Effect.act]
    obtain ⟨caps', hl, hgr⟩ := hp id _ hpost rfl
    obtain rfl : caps = caps' := by simpa [latest_snoc, hg] using hl
    exact ⟨s, hs, hgr⟩
  · intro hq id s hs ha
    obtain ⟨heq, hex⟩ := (grantsMatch_step hi ((not_narrows_iff clock).mp hq) id).2 s hs
    obtain ⟨caps, hl⟩ := hex ha
    exact ⟨caps, hl, heq caps hl⟩

theorem latestGrant_widening : LatestGrant (calls (step fun _ => 0) {}
    [.setCapabilityCeiling .control, .beginSession guest, .authorize 1 .viewOnly,
      .authorize 1 .control]) := by
  have hr := run_ops (fun _ => 0) [.setCapabilityCeiling .control,
    .beginSession guest, .authorize 1 .viewOnly, .authorize 1 .control]
  refine (latestGrant_iff hr).mpr ?_
  rintro c hc ⟨id, r, s, hop, hs, -, hne⟩
  simp only [calls, List.mem_cons, List.not_mem_nil, or_false] at hc
  rcases hc with rfl | rfl | rfl | rfl <;> cases hop
  · obtain rfl : s = { id := 1, peer := guest } :=
      find_unique hs (by decide)
    exact hne (by decide)
  · obtain rfl : s = { id := 1, peer := guest, state := .active, granted := 1 } :=
      find_unique hs (by decide)
    exact hne (by decide)

/-- A narrower authorization leaves the earlier grant in force. -/
theorem not_latestGrant_narrowed : ¬ LatestGrant (calls (step fun _ => 0) {}
    [.setCapabilityCeiling .control, .beginSession guest, .authorize 1 .control,
      .authorize 1 .viewOnly]) := by
  intro hp
  obtain ⟨caps, hl, hg⟩ := hp (calls (step fun _ => 0) {} [.setCapabilityCeiling .control,
    .beginSession guest, .authorize 1 .control]) _ [] rfl 1
    { id := 1, peer := guest, state := .active, granted := 3 } (by decide) rfl
  have hl' : latest (grantOf 1) (calls (step fun _ => 0) {} [.setCapabilityCeiling .control,
    .beginSession guest, .authorize 1 .control, .authorize 1 .viewOnly]) = some 1 := by decide
  have hc : caps = 1 := Option.some.inj (hl.symm.trans hl')
  rw [hc] at hg
  exact absurd hg (by decide)

variable (clock) in
theorem isBeingControlled_iff : m.isBeingControlled = true ↔
    ∃ id, (m.checkPermission clock id .control).1 = true := by
  unfold isBeingControlled
  simp only [checkPermission_iff, List.any_eq_true, Bool.and_eq_true, decide_eq_true_eq]
  constructor
  · rintro ⟨⟨id, s⟩, he, ha, hc⟩
    exact ⟨id, s, Std.ExtTreeMap.mem_toList_iff_getElem?_eq_some.mp he, ha, hc⟩
  · rintro ⟨id, s, hs, ha, hc⟩
    exact ⟨(id, s), Std.ExtTreeMap.mem_toList_iff_getElem?_eq_some.mpr hs, ha, hc⟩

theorem hasCapability_control {granted : Capabilities} :
    hasCapability granted .control = true ↔ 1 ∈ Mask.bits granted := by
  rw [hasCapability_iff, bits_control, Set.singleton_subset_iff]

theorem hasCapability_inputInjection {granted : Capabilities} :
    hasCapability granted .inputInjection = true ↔ 5 ∈ Mask.bits granted := by
  rw [hasCapability_iff, bits_inputInjection, Set.singleton_subset_iff]

/-- No session holds `inputInjection` without `control`. -/
def InjectionNeedsControl (m : SessionManager) : Prop :=
  ∀ id s, m.find id = some s → 5 ∈ Mask.bits s.granted → 1 ∈ Mask.bits s.granted

theorem injectionNeedsControl_step (hi : InjectionNeedsControl m)
    (hq : ∀ id caps, grantOf id (call (step clock) m op) = some caps →
      hasCapability caps .inputInjection = true → hasCapability caps .control = true) :
    InjectionNeedsControl (m.step clock op).2 := by
  intro id s' hs' h5
  cases hs : m.find id with
  | none =>
    obtain ⟨peer, -, -, rfl⟩ := session_created hs hs'
    simp [Capabilities.none] at h5
  | some s =>
    obtain ⟨t, ht, -, hcase⟩ := session_step clock op hs
    obtain rfl : s' = t := find_unique hs' ht
    rcases hcase with ⟨-, rfl⟩ | ⟨next, -, rfl⟩ | ⟨caps, he, rfl⟩
    · exact hi id s' hs h5
    · exact hi id s hs h5
    · have hcaps := hq id caps (grantOf_eq.mpr he)
      rw [hasCapability_inputInjection, hasCapability_control] at hcaps
      have hu : Mask.bits ((s.grant caps).setState .active).granted =
          Mask.bits s.granted ∪ Mask.bits caps := Mask.bits_or
      rw [hu] at h5 ⊢
      exact h5.imp (hi id s hs) hcaps

/-- The indicator is on exactly when some session passes the gate for `control`. It covers every
peer that can inject input in the runs whose grants of `inputInjection` come with `control`. -/
theorem indicator_spec (hr : Run clock h m) :
    (m.isBeingControlled = true ↔ ∃ id, (m.checkPermission clock id .control).1 = true) ∧
    ((∀ c ∈ h, ∀ id caps, grantOf id c = some caps →
        hasCapability caps .inputInjection = true → hasCapability caps .control = true) →
      ∀ id, (m.checkPermission clock id .inputInjection).1 = true →
        m.isBeingControlled = true) := by
  refine ⟨isBeingControlled_iff clock, ?_⟩
  intro hq id hc
  have hinv : InjectionNeedsControl m := by
    apply hr.invariant_of_along (I := fun _ m => InjectionNeedsControl m) _ _ (along_forall.mpr hq)
    · intro id s hs
      cases hs
    · intro a m op _ hi hq
      exact injectionNeedsControl_step hi hq
  obtain ⟨s, hs, ha, hg⟩ := checkPermission_iff.mp hc
  have hcontrol : hasCapability s.granted .control = true :=
    hasCapability_control.mpr (hinv id s hs (hasCapability_inputInjection.mp hg))
  rw [isBeingControlled_iff clock]
  exact ⟨id, checkPermission_iff.mpr ⟨s, hs, ha, hcontrol⟩⟩

theorem indicator_spec_control :
    (final (step fun _ => 0) {} [.setCapabilityCeiling 34, .beginSession guest,
      .authorize 1 34]).isBeingControlled = true := by
  have hr :=
    run_ops (fun _ => 0) [.setCapabilityCeiling 34, .beginSession guest, .authorize 1 34]
  refine (indicator_spec hr).2 ?_ 1 (by decide)
  intro c hc id caps hg
  simp only [calls, List.mem_cons, List.not_mem_nil, or_false] at hc
  rcases hc with rfl | rfl | rfl
  · cases hg
  · cases hg
  · obtain ⟨-, hcaps⟩ := Option.ite_none_right_eq_some.mp hg
    obtain rfl := Option.some.inj hcaps
    decide

/-- A peer that was granted injection alone passes its gate with the indicator off. -/
theorem indicator_off_under_injection :
    ((final (step fun _ => 0) {} [.setCapabilityCeiling .inputInjection, .beginSession guest,
      .authorize 1 .inputInjection]).checkPermission (fun _ => 0) 1 .inputInjection).1 = true ∧
    (final (step fun _ => 0) {} [.setCapabilityCeiling .inputInjection, .beginSession guest,
      .authorize 1 .inputInjection]).isBeingControlled = false := by
  decide

end SessionManager

end Redesk
