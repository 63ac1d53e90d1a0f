import Redesk.Machine.Consent
import Redesk.Machine.Masks
import Redesk.Session.Lifecycle

/-! The manager refines a consent ledger: what the gate lets through goes back to consent, bit by
bit, and no call reaches a session that it is not addressed to. -/
namespace Redesk

theorem mem_bits_viewOnly {i : ℕ} : i ∈ Mask.bits Capabilities.viewOnly ↔ i = 0 := by
  have hv : Capabilities.viewOnly = 1#32 := rfl
  rw [Mask.mem_bits, hv, BitVec.getLsbD_one]
  simp

theorem hasCapability_iff {granted needed : Capabilities} :
    hasCapability granted needed = true ↔ Mask.bits needed ⊆ Mask.bits granted := by
  rw [hasCapability, beq_iff_eq, Mask.bits_subset_iff]

namespace SessionManager
open Machine

theorem bits_clamp (requested ceiling : Capabilities) :
    Mask.bits (clamp requested ceiling) =
      Mask.bits requested ∩ (Mask.bits ceiling ∪ {0}) ∪ {0} := by
  have hv : Mask.bits Capabilities.viewOnly = {0} := Set.ext fun i => mem_bits_viewOnly
  rw [clamp, allowedBits, Mask.bits_or, Mask.bits_and, Mask.bits_or, hv]

variable {clock : ℕ → UInt64} {m : SessionManager} {h : List Call} {op : Op} {id : UInt64}

/-- A successful grant of consent. -/
def Authorizes (id : UInt64) (c : Call) : Prop :=
  ∃ requested, c.op = .authorize id requested ∧ c.res = .status .success

/-- A call that writes the state of a session. -/
def SetsState (id : UInt64) (c : Call) : Prop := (c.pre.effect c.op).subject = some id

variable (clock m op) in
theorem authorize_success_iff {requested : Capabilities} :
    (m.step clock (.authorize id requested)).1 = .status .success ↔
      (m.find id).isSome ∧ allowedBits requested m.ceiling ≠ 0 := by
  have he := step_exit clock m (.authorize id requested)
  generalize (m.step clock (.authorize id requested)).1 = r,
    (m.step clock (.authorize id requested)).2 = m' at he
  cases he with
  | authorizeUnknown i r hs => simp [hs, Status.error, Status.success]
  | authorizeRefused i r s hs ha => simp [ha, Status.error, Status.success]
  | authorized i r s hs ha => simpa [hs] using ha

/-- The call grants consent: a known session, and something that the policy lets through. -/
def Grants (m : SessionManager) (op : Op) (id : UInt64) : Prop :=
  ∃ requested, op = .authorize id requested ∧ (m.find id).isSome ∧
    allowedBits requested m.ceiling ≠ 0

theorem authorizes_iff_grants : Authorizes id (call (step clock) m op) ↔ Grants m op id := by
  constructor
  · rintro ⟨r, rfl, hres⟩
    exact ⟨r, rfl, (authorize_success_iff clock m).mp hres⟩
  · rintro ⟨r, rfl, hg⟩
    exact ⟨r, rfl, (authorize_success_iff clock m).mpr hg⟩

theorem authorizes_iff :
    Authorizes id (call (step clock) m op) ↔ ∃ caps, m.effect op = .activate id caps := by
  rw [authorizes_iff_grants]
  constructor
  · rintro ⟨r, rfl, hk, ha⟩
    exact ⟨clamp r m.ceiling, effect_authorize hk ha⟩
  · rintro ⟨caps, he⟩
    obtain ⟨r, hop, hk, ha, -⟩ := effect_eq_activate he
    exact ⟨r, hop, hk, ha⟩

theorem target_of_subject (he : (m.effect op).subject = some id) :
    (op.target = some id ∧ (m.find id).isSome) ∨
      ((∃ peer, op = .beginSession peer) ∧ m.find id = none) := by
  cases hs : m.find id <;> cases op <;> grind [effect, Effect.subject, Op.target]

/-- Who may do what, seen as a consent ledger over bit positions. -/
def ledger (m : SessionManager) : Consent.Ledger UInt64 ℕ :=
  fun id => (m.find id).map fun s => ⟨s.state = .active, Mask.bits s.granted⟩

def Effect.event : Effect → Consent.Event UInt64 ℕ
  | .keep => .other
  | .create id _ => .enter id
  | .move id _ => .suspend id
  | .activate id caps => .consent id (Mask.bits caps)

theorem Effect.event_subject (e : Effect) : e.event.subject = e.subject := by
  cases e <;> rfl

variable (clock m op) in
/-- Every call is one event of the ledger. -/
theorem ledger_step :
    ledger (m.step clock op).2 = Consent.post (ledger m) (m.effect op).event := by
  funext id
  unfold ledger
  rw [find_step]
  by_cases hi : (m.effect op).subject = some id
  · have ht : Consent.Touches id (m.effect op).event := by
      rw [Consent.Touches, Effect.event_subject, hi]
    rw [if_pos hi, Consent.post_of_subject ht]
    cases he : m.effect op with
    | keep => rw [he] at hi; cases hi
    | create i peer => simp [Effect.act, Effect.event, Consent.Event.act, Capabilities.none]
    | move i next =>
      have hne : next ≠ .active := by
        rcases effect_eq_move he with ⟨rfl, -⟩ | ⟨rfl, -⟩ | ⟨rfl, -⟩ <;> decide
      cases hs : m.find id <;>
        simp [Effect.act, Effect.event, Consent.Event.act, Session.setState, hne]
    | activate i caps =>
      cases hs : m.find id <;>
        simp [Effect.act, Effect.event, Consent.Event.act, Session.setState, Session.grant]
  · have ht : ¬ Consent.Touches id (m.effect op).event := by
      rwa [Consent.Touches, Effect.event_subject]
    rw [if_neg hi, Consent.post_of_subject_ne ht]

/-- The ledger of a run is the replay of its events. -/
theorem ledger_run (hr : Run clock h m) :
    ledger m = Consent.replay (h.map fun c => (c.pre.effect c.op).event) := by
  induction hr with
  | nil => rfl
  | @snoc h m hr op ih => rw [ledger_step, ih, List.map_append, List.map_singleton,
      Consent.replay_snoc, call_pre, call_op]

theorem permits_iff {needed : Capabilities} :
    Consent.Permits (ledger m) id (Mask.bits needed) ↔
      (m.checkPermission clock id needed).1 = true := by
  rw [checkPermission_iff]
  constructor
  · rintro ⟨st, hst, hrun, hn⟩
    obtain ⟨s, hs, rfl⟩ := Option.map_eq_some_iff.mp hst
    exact ⟨s, hs, hrun, hasCapability_iff.mpr hn⟩
  · rintro ⟨s, hs, ha, hn⟩
    exact ⟨_, Option.map_eq_some_iff.mpr ⟨s, hs, rfl⟩, ha, hasCapability_iff.mp hn⟩

variable (clock) in
/-- A call leaves a session that it is not addressed to as it was. -/
theorem find_step_of_target_ne (ht : op.target ≠ some id ∨ m.find id = none)
    (hb : m.find id = none → ∀ peer, op ≠ .beginSession peer) :
    (m.step clock op).2.find id = m.find id := by
  rw [find_step, if_neg]
  intro hs
  rcases target_of_subject hs with ⟨htar, hk⟩ | ⟨⟨peer, hop⟩, hn⟩
  · rcases ht with ht | ht
    · exact ht htar
    · rw [ht] at hk
      cases hk
  · exact hb hn peer hop

/-- Default-deny: an open gate rests on the last call that set the session's state, which was a
successful `authorize`, and every bit beyond `viewOnly` on an `authorize` that asked for it under a
ceiling that allowed it. Calls addressed elsewhere, to an unknown id or to the policy leave the
session and its gate alone, and so does the start of another session. -/
theorem gate_provenance (hr : Run clock h m) :
    (∀ id needed, (m.checkPermission clock id needed).1 = true →
      Since (Authorizes id) (SetsState id) h ∧
      ∀ i ≠ 0, needed.getLsbD i = true → ∃ c ∈ h, ∃ requested,
        c.op = .authorize id requested ∧ c.res = .status .success ∧
          requested.getLsbD i = true ∧ c.pre.ceiling.getLsbD i = true) ∧
    ∀ op id, (op.target ≠ some id ∨ m.find id = none) →
      (m.find id = none → ∀ peer, op ≠ .beginSession peer) →
      (m.step clock op).2.find id = m.find id ∧
        ∀ needed, ((m.step clock op).2.checkPermission clock id needed).1 =
          (m.checkPermission clock id needed).1 := by
  have hcall : ∀ c ∈ h, c = call (step clock) c.pre c.op := by
    intro c hc
    obtain ⟨a, b, rfl⟩ := List.append_of_mem hc
    exact hr.split.2.1
  constructor
  · intro id needed hc
    rw [← permits_iff, ledger_run hr] at hc
    obtain ⟨hs, hb⟩ := Consent.permits_provenance hc
    constructor
    · refine (since_map.mp hs).imp (fun c hc => ?_) fun c _ hc => ?_
      · rintro ⟨grant, he⟩
        rw [hcall c hc, authorizes_iff]
        cases hef : c.pre.effect c.op <;> rw [hef] at he <;> cases he
        exact ⟨_, rfl⟩
      · rwa [Consent.Touches, Effect.event_subject]
    · intro i hi hn
      obtain ⟨grant, hm, hg⟩ := hb i hn
      obtain ⟨c, hc, he⟩ := List.mem_map.mp hm
      have ⟨caps, hef⟩ : ∃ caps,
          c.pre.effect c.op = .activate id caps ∧ Mask.bits caps = grant := by
        cases hef : c.pre.effect c.op <;> rw [hef] at he <;> cases he
        exact ⟨_, rfl, rfl⟩
      obtain ⟨r, hop, hres⟩ : Authorizes id c := by
        rw [hcall c hc, authorizes_iff]
        exact ⟨caps, hef.1⟩
      obtain ⟨r', hop', -, -, rfl⟩ := effect_eq_activate hef.1
      obtain rfl : r = r' := by simpa [hop] using hop'
      rw [← hef.2, bits_clamp] at hg
      refine ⟨c, hc, r, hop, hres, ?_⟩
      simpa [hi] using hg
  · intro op id ht hb
    have hf := find_step_of_target_ne clock ht hb
    refine ⟨hf, fun needed => ?_⟩
    rw [checkPermission_fst, checkPermission_fst, hf]

theorem gate_provenance_control : Since (Authorizes 1) (SetsState 1)
    (calls (step fun _ => 0) {}
      [.setCapabilityCeiling .control, .beginSession guest, .authorize 1 .control]) := by
  have hr := run_ops (fun _ => 0)
    [.setCapabilityCeiling .control, .beginSession guest, .authorize 1 .control]
  exact ((gate_provenance hr).1 1 .control (by decide)).1

end SessionManager

end Redesk
