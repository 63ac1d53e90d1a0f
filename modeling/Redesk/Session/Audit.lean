import Redesk.Session.Lifecycle
import Redesk.Machine.Masks

/-! The audit log: it only grows, and the two calls that go through without a record. -/
namespace Redesk.SessionManager
open Machine

variable {clock : ℕ → UInt64} {m : SessionManager} {h : List Call} {op : Op} {id : UInt64}

/-- The records that a call appends to the log. -/
def appended (c : Call) : List AuditRecord := c.post.audit.drop c.pre.audit.length

theorem appended_call : appended (call (step clock) m op) =
    stamp clock m.audit.length (m.entries op) := by
  simp [appended]

theorem exists_mem_stamp {n : ℕ} {es : List Entry} {P : String → AuditEvent → Prop} :
    (∃ r ∈ stamp clock n es, P r.peerFingerprint r.event) ↔ ∃ e ∈ es, P e.fingerprint e.event := by
  induction es generalizing n with
  | nil => simp [stamp]
  | cons e es ih => simp [stamp, ih]

theorem forall_mem_stamp {n : ℕ} {es : List Entry} {P : String → AuditEvent → Prop} :
    (∀ r ∈ stamp clock n es, P r.peerFingerprint r.event) ↔ ∀ e ∈ es, P e.fingerprint e.event := by
  have hn : (∃ r ∈ stamp clock n es, ¬ P r.peerFingerprint r.event) ↔
      ∃ e ∈ es, ¬ P e.fingerprint e.event := exists_mem_stamp (P := fun f ev => ¬ P f ev)
  simpa using hn.not

/-- The key-change record is written exactly on a mismatch with an existing pin, by a fingerprint
that is not denied. -/
theorem keyChange_mem_entries {fp : String} :
    (∃ e ∈ m.entries (.onHandshakeCompleted id fp), e.event = .keyChangeDetected) ↔
      ∃ s, m.find id = some s ∧ fp ∉ m.denyList ∧
        ∃ pin, m.tofuPins[s.peer.redeskId]? = some pin ∧ pin ≠ fp := by
  cases hs : m.find id with
  | none => simp [entries, Op.target, hs]
  | some s =>
    by_cases hd : fp ∈ m.denyList
    · simp [entries, Op.target, hs, sessionEntries, hd]
    · cases hp : m.tofuPins[s.peer.redeskId]? with
      | none => simp [entries, Op.target, hs, sessionEntries, hd, hp]
      | some pin =>
        by_cases hne : pin = fp <;>
          simp [entries, Op.target, hs, sessionEntries, hd, hp, hne]

/-- Apart from a completed handshake, a call on a session logs under the session's peer. -/
theorem entries_fingerprint {s : Session} (hs : m.find id = some s) (ht : op.target = some id)
    (hc : ∀ fp, op ≠ .onHandshakeCompleted id fp) :
    ∀ e ∈ m.entries op, e.fingerprint = s.peer.fingerprint := by
  intro e he
  cases op with
  | onHandshakeCompleted i fp => exact (hc fp (by simpa [Op.target] using ht)).elim
  | authorize i r =>
    obtain rfl : i = id := by simpa [Op.target] using ht
    simp only [entries, Op.target, Option.bind_some, hs, sessionEntries, refusedEntries] at he
    grind
  | checkPermission i needed =>
    obtain rfl : i = id := by simpa [Op.target] using ht
    simp only [entries, Op.target, Option.bind_some, hs, sessionEntries] at he
    grind
  | onHandshakeStarted i | deny i reason | closeSession i =>
    obtain rfl : i = id := by simpa [Op.target] using ht
    simp_all [entries, Op.target, sessionEntries]
  | _ => cases ht

def Reply.code : Reply → Option ErrorCode
  | .id r => some r.status.code
  | .status s => some s.code
  | .allowed _ | .done => none

/-- The log keeps what it had, and it grows when the call changed the state of a session, was
refused, or found the gate shut. -/
def Audited (clock : ℕ → UInt64) (m : SessionManager) (op : Op) : Prop :=
  ∃ new, (m.step clock op).2.audit = m.audit ++ new ∧
    ((∃ id, ((m.step clock op).2.find id).map Session.state ≠ (m.find id).map Session.state) ∨
      (m.step clock op).1.code = some .permissionDenied ∨
      (m.step clock op).1 = .allowed false → new ≠ [])

/-- A check of an unknown session, or an authorization that asks for nothing. -/
def Silent (m : SessionManager) (op : Op) : Prop :=
  (∃ id needed, op = .checkPermission id needed ∧ m.find id = none) ∨
    ∃ id, op = .authorize id .none ∧ (m.find id).isSome

theorem allowedBits_or_refused {requested ceiling : Capabilities}
    (ha : allowedBits requested ceiling = 0)
    (hr : requested &&& ~~~(ceiling ||| .viewOnly) = 0) : requested = .none := by
  refine BitVec.eq_of_getLsbD_eq fun i hi => ?_
  have ha' := congrArg (fun b => b.getLsbD i) ha
  have hr' := congrArg (fun b => b.getLsbD i) hr
  simp only [allowedBits, BitVec.getLsbD_and, BitVec.getLsbD_not] at ha' hr'
  simp_all [Capabilities.none]

variable (clock) in
/-- A call without a record changes no session, refuses nothing, or is one of the silent two. -/
theorem entries_eq_nil (he : m.entries op = []) : Silent m op ∨
    m.effect op = .keep ∧ (m.step clock op).1.code ≠ some .permissionDenied ∧
      (m.step clock op).1 ≠ .allowed false := by
  have hx := step_exit clock m op
  generalize (m.step clock op).1 = r, (m.step clock op).2 = m' at hx
  cases hx with
  | beginDenied peer hd => simp [entries, hd] at he
  | begun peer hd => simp [entries, hd] at he
  | checkUnknown i needed hs => exact .inl (.inl ⟨i, needed, rfl, hs⟩)
  | authorizeRefused i r s hs ha =>
    have hr : r &&& ~~~(m.ceiling ||| .viewOnly) = 0 := by
      by_contra hr
      simp only [entries, Op.target, Option.bind_some, hs, sessionEntries, refusedEntries,
        if_pos hr] at he
      cases he
    obtain rfl := allowedBits_or_refused ha hr
    exact .inl (.inr ⟨i, rfl, Option.isSome_of_eq_some hs⟩)
  | authorized i r s hs ha =>
    simp only [entries, Op.target, Option.bind_some, hs, sessionEntries, if_neg ha] at he
    simp at he
  | startUnknown i hs | completeUnknown i fp hs | authorizeUnknown i r hs | denyUnknown i reason hs
  | closeUnknown i hs =>
    refine .inr ⟨by simp [effect, hs], ?_, ?_⟩ <;> simp [Reply.code, Status.error]
  | checkPassed i needed s hs ha => exact .inr ⟨rfl, by simp [Reply.code], by simp⟩
  | checkFailed i needed s hs ha => simp [entries, Op.target, hs, sessionEntries, ha] at he
  | setCapabilityCeiling | allowPeer | denyPeer | setStateCallback | setAuditCallback =>
    exact .inr ⟨rfl, by simp [Reply.code], by simp⟩
  | _ => simp_all [entries, Op.target, sessionEntries]

variable (clock) in
theorem entries_of_silent (hs : Silent m op) : m.entries op = [] ∧
    ((m.step clock op).1.code = some .permissionDenied ∨ (m.step clock op).1 = .allowed false) := by
  rcases hs with ⟨i, needed, rfl, hn⟩ | ⟨i, rfl, hk⟩
  · refine ⟨by simp [entries, Op.target, hn], .inr ?_⟩
    simp [step, checkPermission, hn]
  · obtain ⟨s, hs⟩ := Option.isSome_iff_exists.mp hk
    have ha : allowedBits 0#32 m.ceiling = 0#32 := by simp [allowedBits]
    constructor
    · simp [entries, Op.target, hs, sessionEntries, refusedEntries, ha, Capabilities.none]
    · have hx := step_exit clock m (.authorize i .none)
      generalize (m.step clock (.authorize i .none)).1 = r,
        (m.step clock (.authorize i .none)).2 = m' at hx
      cases hx with
      | authorizeUnknown j r hn => rw [hs] at hn; cases hn
      | authorizeRefused j r t ht hr => exact .inl rfl
      | authorized j r t ht hr => exact (hr ha).elim

/-- The log misses nothing just when the call is neither a check of an unknown session nor an
authorization of a known one that asks for nothing. -/
theorem audited_iff (clock : ℕ → UInt64) (m : SessionManager) (op : Op) :
    Audited clock m op ↔ ¬ Silent m op := by
  constructor
  · rintro ⟨new, haud, hnew⟩ hs
    obtain ⟨he, hres⟩ := entries_of_silent clock hs
    rw [audit_step, he, List.append_cancel_left_eq] at haud
    exact hnew (.inr hres) haud.symm
  · intro hs
    refine ⟨_, audit_step clock m op, fun hc hn => ?_⟩
    have he : m.entries op = [] := by
      rw [← List.length_eq_zero_iff, ← length_stamp clock m.audit.length, hn]
      rfl
    rcases entries_eq_nil clock he with hs' | ⟨hkeep, hcode, hgate⟩
    · exact hs hs'
    · rcases hc with ⟨i, hi⟩ | hc | hc
      · apply hi
        rw [find_step, hkeep]
        rfl
      · exact hcode hc
      · exact hgate hc

/-- An authorization that asks for nothing denies the session without a record, and so does a check
of an unknown session. -/
theorem not_audited_silent :
    ¬ Audited (fun _ => 0) (final (step fun _ => 0) {} [.beginSession guest])
      (.authorize 1 .none) ∧
    ¬ Audited (fun _ => 0) {} (.checkPermission 1 .viewOnly) := by
  constructor
  · rintro ⟨new, haud, hnew⟩
    have hsame : (step (fun _ => 0) (final (step fun _ => 0) {} [.beginSession guest])
        (.authorize 1 .none)).2.audit =
        (final (step fun _ => 0) {} [.beginSession guest]).audit ++ [] := by decide
    exact hnew (.inr (.inl (by decide))) (List.append_cancel_left (haud.symm.trans hsame))
  · rintro ⟨new, haud, hnew⟩
    have hsame : (step (fun _ => 0) {} (.checkPermission 1 .viewOnly)).2.audit =
        ({} : SessionManager).audit ++ [] := by decide
    exact hnew (.inr (.inr (by decide))) (List.append_cancel_left (haud.symm.trans hsame))

end Redesk.SessionManager
