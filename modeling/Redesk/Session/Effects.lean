import Redesk.Session.Manager
import Redesk.Machine.Runs

/-! What one call does, said once: the session it writes, the records it appends to the audit
log, and the policy and pins it leaves. Every invariant below is derived from these. -/
namespace Redesk.SessionManager
open Machine

/-- The session id that a call is addressed to. -/
def Op.target : Op → Option UInt64
  | .onHandshakeStarted id | .onHandshakeCompleted id _ | .authorize id _ | .deny id _
  | .checkPermission id _ | .closeSession id => some id
  | _ => none

variable (clock : ℕ → UInt64) (m : SessionManager)

/-- The bits of a request that the policy lets through; a grant always contains `viewOnly`. -/
def allowedBits (requested ceiling : Capabilities) : Capabilities :=
  requested &&& (ceiling ||| .viewOnly)

def clamp (requested ceiling : Capabilities) : Capabilities :=
  allowedBits requested ceiling ||| .viewOnly

/-- What a call does to the one session it writes, if it writes any. -/
inductive Effect where
  | keep
  | create (sessionId : UInt64) (peer : PeerInfo)
  | move (sessionId : UInt64) (next : SessionState)
  | activate (sessionId : UInt64) (caps : Capabilities)
  deriving DecidableEq, Repr

namespace Effect

def subject : Effect → Option UInt64
  | .keep => none
  | .create sessionId _ | .move sessionId _ | .activate sessionId _ => some sessionId

def act : Effect → Option Session → Option Session
  | .keep, s => s
  | .create sessionId peer, _ => some { id := sessionId, peer := peer }
  | .move _ next, s => s.map fun s => s.setState next
  | .activate _ caps, s => s.map fun s => (s.grant caps).setState .active

end Effect

def effect : Op → Effect
  | .beginSession peer =>
    if peer.fingerprint ∈ m.denyList ∨ (m.find m.nextId).isSome then .keep
    else .create m.nextId peer
  | .onHandshakeStarted sessionId =>
    if (m.find sessionId).isSome then .move sessionId .authenticating else .keep
  | .onHandshakeCompleted sessionId fp =>
    if (m.find sessionId).isSome ∧ fp ∈ m.denyList then .move sessionId .denied else .keep
  | .authorize sessionId requested =>
    if (m.find sessionId).isSome then
      if allowedBits requested m.ceiling = 0 then .move sessionId .denied
      else .activate sessionId (clamp requested m.ceiling)
    else .keep
  | .deny sessionId _ => if (m.find sessionId).isSome then .move sessionId .denied else .keep
  | .closeSession sessionId =>
    if (m.find sessionId).isSome then .move sessionId .closed else .keep
  | _ => .keep

variable {m} in
theorem effect_authorize {id : UInt64} {requested : Capabilities} (hk : (m.find id).isSome)
    (ha : allowedBits requested m.ceiling ≠ 0) :
    m.effect (.authorize id requested) = .activate id (clamp requested m.ceiling) := by
  simp only [effect]
  rw [if_pos hk, if_neg ha]

section Primitives
variable {m} (fp detail : String) (ev : AuditEvent) (id i : UInt64) (s : Session)
  (next : SessionState)

@[simp] theorem find_record : (m.record clock fp ev detail).find id = m.find id := rfl

@[simp] theorem find_store :
    (m.store i s).find id = if i = id then some s else m.find id := by
  simp [find, store, Std.ExtTreeMap.getElem?_insert]

@[simp] theorem find_transition :
    (m.transition i s next).find id = if i = id then some (s.setState next) else m.find id :=
  find_store id i (s.setState next)

@[simp] theorem find_emplace :
    (m.emplace i s).find id = if i = id then some ((m.find id).getD s) else m.find id := by
  have hf : (m.emplace i s).find id = if i = id ∧ i ∉ m.sessions then some s
      else m.find id := by
    rw [find, emplace, Std.ExtTreeMap.getElem?_insertIfNew]
    simp only [Std.compare_eq_iff_eq]
    rfl
  rw [hf]
  by_cases hi : i = id
  · subst hi
    cases hs : m.sessions[i]? with
    | none =>
      have hk : i ∉ m.sessions := by
        rw [Std.ExtTreeMap.mem_iff_isSome_getElem?, hs]
        simp
      simp [find, hk]
    | some t =>
      have hk : i ∈ m.sessions := by
        rw [Std.ExtTreeMap.mem_iff_isSome_getElem?, hs]
        rfl
      simp [find, hk]
  · simp [find, hi]

@[simp] theorem find_takeId : m.takeId.find id = m.find id := rfl

@[simp] theorem find_pin (redeskId : String) : (m.pin redeskId fp).find id = m.find id := rfl

theorem mem_tofuPins {r pin : String} (hp : m.tofuPins[r]? = some pin) : r ∈ m.tofuPins := by
  rw [Std.ExtTreeMap.mem_iff_isSome_getElem?, hp]
  rfl

theorem notMem_tofuPins {r : String} (hp : m.tofuPins[r]? = none) : r ∉ m.tofuPins := by
  rw [Std.ExtTreeMap.mem_iff_isSome_getElem?, hp]
  exact Bool.false_ne_true

end Primitives

/-- The fingerprint that a completed handshake is recorded under. -/
def recordedAs (s : Session) (fp : String) : String :=
  if s.peer.fingerprint = "" then fp else s.peer.fingerprint

/-- The bits that the policy refuses are recorded before anything else. -/
def auditRefused (fp : String) (requested : Capabilities) : SessionManager :=
  if requested &&& ~~~(m.ceiling ||| .viewOnly) ≠ 0 then
    m.record clock fp .capabilityDenied ("above ceiling: requested=" ++
      toString requested.toNat ++ " ceiling=" ++
        toString (m.ceiling ||| .viewOnly : Capabilities).toNat)
  else m

/-- Every way a call can end: its guard, its reply and the state it leaves. -/
inductive Exit : Op → Reply → SessionManager → Prop where
  | beginDenied (peer : PeerInfo) (hd : peer.fingerprint ∈ m.denyList) :
    Exit (.beginSession peer) (.id (.fail .permissionDenied "peer is on the deny list"))
      (m.record clock peer.fingerprint .capabilityDenied "peer on deny-list")
  | begun (peer : PeerInfo) (hd : peer.fingerprint ∉ m.denyList) :
    Exit (.beginSession peer) (.id (.good m.nextId))
      ((m.takeId.emplace m.nextId { id := m.nextId, peer := peer }).record clock peer.fingerprint
        .sessionRequested ("id=" ++ peer.redeskId))
  | startUnknown (id : UInt64) (hs : m.find id = none) :
    Exit (.onHandshakeStarted id) (.status (.error .notFound "unknown session")) m
  | started (id : UInt64) (s : Session) (hs : m.find id = some s) :
    Exit (.onHandshakeStarted id) (.status .success)
      ((m.transition id s .authenticating).record clock s.peer.fingerprint .handshakeStarted "")
  | completeUnknown (id : UInt64) (fp : String) (hs : m.find id = none) :
    Exit (.onHandshakeCompleted id fp) (.status (.error .notFound "unknown session")) m
  | completeDenied (id : UInt64) (fp : String) (s : Session) (hs : m.find id = some s)
      (hd : fp ∈ m.denyList) :
    Exit (.onHandshakeCompleted id fp) (.status (.error .permissionDenied "peer denied"))
      (((m.record clock (recordedAs s fp) .handshakeCompleted "").record clock fp .authFailed
        "peer on deny-list (post-handshake)").transition id s .denied)
  | keyChanged (id : UInt64) (fp pin : String) (s : Session) (hs : m.find id = some s)
      (hd : fp ∉ m.denyList) (hp : m.tofuPins[s.peer.redeskId]? = some pin) (hne : pin ≠ fp) :
    Exit (.onHandshakeCompleted id fp) (.status .success)
      ((m.record clock (recordedAs s fp) .handshakeCompleted "").record clock fp
        .keyChangeDetected ("id=" ++ s.peer.redeskId ++ " expected=" ++ pin))
  | keyMatched (id : UInt64) (fp : String) (s : Session) (hs : m.find id = some s)
      (hd : fp ∉ m.denyList) (hp : m.tofuPins[s.peer.redeskId]? = some fp) :
    Exit (.onHandshakeCompleted id fp) (.status .success)
      (m.record clock (recordedAs s fp) .handshakeCompleted "")
  | firstContact (id : UInt64) (fp : String) (s : Session) (hs : m.find id = some s)
      (hd : fp ∉ m.denyList) (hp : m.tofuPins[s.peer.redeskId]? = none) :
    Exit (.onHandshakeCompleted id fp) (.status .success)
      ((m.record clock (recordedAs s fp) .handshakeCompleted "").pin s.peer.redeskId fp)
  | authorizeUnknown (id : UInt64) (requested : Capabilities) (hs : m.find id = none) :
    Exit (.authorize id requested) (.status (.error .notFound "unknown session")) m
  | authorizeRefused (id : UInt64) (requested : Capabilities) (s : Session)
      (hs : m.find id = some s) (ha : allowedBits requested m.ceiling = 0) :
    Exit (.authorize id requested)
      (.status (.error .permissionDenied "no requested capability is within policy"))
      ((m.auditRefused clock s.peer.fingerprint requested).transition id s .denied)
  | authorized (id : UInt64) (requested : Capabilities) (s : Session)
      (hs : m.find id = some s) (ha : allowedBits requested m.ceiling ≠ 0) :
    Exit (.authorize id requested) (.status .success)
      (((((m.auditRefused clock s.peer.fingerprint requested).store id
        (s.grant (clamp requested m.ceiling))).record clock s.peer.fingerprint .capabilityGranted
          ("granted=" ++ toString (clamp requested m.ceiling).toNat)).record clock
            s.peer.fingerprint .authSucceeded "").transition id
              (s.grant (clamp requested m.ceiling)) .active |>.record clock s.peer.fingerprint
                .sessionActivated "")
  | denyUnknown (id : UInt64) (reason : String) (hs : m.find id = none) :
    Exit (.deny id reason) (.status (.error .notFound "unknown session")) m
  | denied (id : UInt64) (reason : String) (s : Session) (hs : m.find id = some s) :
    Exit (.deny id reason) (.status .success)
      ((m.record clock s.peer.fingerprint .authFailed reason).transition id s .denied)
  | checkUnknown (id : UInt64) (needed : Capabilities) (hs : m.find id = none) :
    Exit (.checkPermission id needed) (.allowed false) m
  | checkPassed (id : UInt64) (needed : Capabilities) (s : Session) (hs : m.find id = some s)
      (ha : s.isAllowed needed = true) :
    Exit (.checkPermission id needed) (.allowed true) m
  | checkFailed (id : UInt64) (needed : Capabilities) (s : Session) (hs : m.find id = some s)
      (ha : s.isAllowed needed = false) :
    Exit (.checkPermission id needed) (.allowed false)
      (m.record clock s.peer.fingerprint .permissionCheckDenied
        ("needed=" ++ toString needed.toNat ++ " state=" ++ s.state.toString))
  | closeUnknown (id : UInt64) (hs : m.find id = none) :
    Exit (.closeSession id) (.status (.error .notFound "unknown session")) m
  | closed (id : UInt64) (s : Session) (hs : m.find id = some s) :
    Exit (.closeSession id) (.status .success)
      ((m.transition id s .closed).record clock s.peer.fingerprint .sessionClosed "")
  | setCapabilityCeiling (ceiling : Capabilities) :
    Exit (.setCapabilityCeiling ceiling) .done (m.setCapabilityCeiling ceiling)
  | allowPeer (fp : String) : Exit (.allowPeer fp) .done (m.allowPeer fp)
  | denyPeer (fp : String) : Exit (.denyPeer fp) .done (m.denyPeer fp)
  | setStateCallback (installed : Bool) :
    Exit (.setStateCallback installed) .done (m.setStateCallback installed)
  | setAuditCallback (installed : Bool) :
    Exit (.setAuditCallback installed) .done (m.setAuditCallback installed)

theorem exit_onHandshakeCompleted (id : UInt64) (fp : String) :
    Exit clock m (.onHandshakeCompleted id fp) (.status (m.onHandshakeCompleted clock id fp).1)
      (m.onHandshakeCompleted clock id fp).2 := by
  cases hs : m.find id with
  | none =>
    have h : Exit clock m _ _ _ := .completeUnknown id fp hs
    simpa [onHandshakeCompleted, hs] using h
  | some s =>
    have hpeer : (if s.peer.fingerprint = "" then { s.peer with fingerprint := fp } else s.peer) =
        { s.peer with fingerprint := recordedAs s fp } := by
      unfold recordedAs
      split <;> rfl
    by_cases hd : fp ∈ m.denyList
    · have h : Exit clock m _ _ _ := .completeDenied id fp s hs hd
      simpa [onHandshakeCompleted, hs, hpeer, hd, record] using h
    · cases hp : m.tofuPins[s.peer.redeskId]? with
      | none =>
        have h : Exit clock m _ _ _ := .firstContact id fp s hs hd hp
        simpa [onHandshakeCompleted, hs, hpeer, hd, record, hp] using h
      | some pin =>
        by_cases hne : pin = fp
        · subst hne
          have h : Exit clock m _ _ _ := .keyMatched id pin s hs hd hp
          simpa [onHandshakeCompleted, hs, hpeer, hd, record, hp] using h
        · have h : Exit clock m _ _ _ := .keyChanged id fp pin s hs hd hp hne
          simpa [onHandshakeCompleted, hs, hpeer, hd, record, hp, hne] using h

theorem exit_authorize (id : UInt64) (requested : Capabilities) :
    Exit clock m (.authorize id requested) (.status (m.authorize clock id requested).1)
      (m.authorize clock id requested).2 := by
  cases hs : m.find id with
  | none =>
    have h : Exit clock m _ _ _ := .authorizeUnknown id requested hs
    simpa [authorize, hs] using h
  | some s =>
    by_cases ha : allowedBits requested m.ceiling = 0
    · have h : m.authorize clock id requested =
          (.error .permissionDenied "no requested capability is within policy",
            (m.auditRefused clock s.peer.fingerprint requested).transition id s .denied) := by
        unfold authorize
        rw [hs]
        exact if_pos ha
      rw [h]
      exact .authorizeRefused id requested s hs ha
    · have h : (m.authorize clock id requested).1 = .success := by
        unfold authorize
        rw [hs]
        exact congrArg Prod.fst (if_neg ha)
      have h' : Exit clock m _ _ _ := .authorized id requested s hs ha
      rw [h]
      unfold authorize
      rw [hs]
      simp only
      rw [if_neg (show ¬ requested &&& (m.ceiling ||| .viewOnly) = 0 from ha)]
      exact h'

theorem step_exit (op : Op) : Exit clock m op (m.step clock op).1 (m.step clock op).2 := by
  cases op with
  | beginSession peer =>
    by_cases hd : peer.fingerprint ∈ m.denyList
    · have h : Exit clock m _ _ _ := .beginDenied peer hd
      have hne : m.denyList ≠ ∅ := Finset.ne_empty_of_mem hd
      simpa [step, beginSession, hd, hne] using h
    · have h : Exit clock m _ _ _ := .begun peer hd
      simpa [step, beginSession, hd] using h
  | onHandshakeStarted id =>
    cases hs : m.find id with
    | none =>
      have h : Exit clock m _ _ _ := .startUnknown id hs
      simpa [step, onHandshakeStarted, hs] using h
    | some s =>
      have h : Exit clock m _ _ _ := .started id s hs
      simpa [step, onHandshakeStarted, hs] using h
  | onHandshakeCompleted id fp => exact exit_onHandshakeCompleted clock m id fp
  | authorize id requested => exact exit_authorize clock m id requested
  | deny id reason =>
    cases hs : m.find id with
    | none =>
      have h : Exit clock m _ _ _ := .denyUnknown id reason hs
      simpa [step, deny, hs] using h
    | some s =>
      have h : Exit clock m _ _ _ := .denied id reason s hs
      simpa [step, deny, hs] using h
  | checkPermission id needed =>
    cases hs : m.find id with
    | none =>
      have h : Exit clock m _ _ _ := .checkUnknown id needed hs
      simpa [step, checkPermission, hs] using h
    | some s =>
      cases ha : s.isAllowed needed with
      | true =>
        have h : Exit clock m _ _ _ := .checkPassed id needed s hs ha
        simpa [step, checkPermission, hs, ha] using h
      | false =>
        have h : Exit clock m _ _ _ := .checkFailed id needed s hs ha
        simpa [step, checkPermission, hs, ha] using h
  | closeSession id =>
    cases hs : m.find id with
    | none =>
      have h : Exit clock m _ _ _ := .closeUnknown id hs
      simpa [step, closeSession, hs] using h
    | some s =>
      have h : Exit clock m _ _ _ := .closed id s hs
      simpa [step, closeSession, hs] using h
  | setCapabilityCeiling ceiling => exact .setCapabilityCeiling ceiling
  | allowPeer fp => exact .allowPeer fp
  | denyPeer fp => exact .denyPeer fp
  | setStateCallback installed => exact .setStateCallback installed
  | setAuditCallback installed => exact .setAuditCallback installed

@[simp] theorem find_auditRefused (fp : String) (requested : Capabilities) (id : UInt64) :
    (m.auditRefused clock fp requested).find id = m.find id := by
  unfold auditRefused
  split <;> rfl

/-- A write through the reference that `find id` gave, seen from any id. -/
theorem write_eq_map {m : SessionManager} {i : UInt64} {s : Session} (hs : m.find i = some s)
    (g : Session → Session) (id : UInt64) :
    (if i = id then some (g s) else m.find id) =
      if some i = some id then (m.find id).map g else m.find id := by
  by_cases hi : i = id
  · subst hi
    simp [hs]
  · simp [hi]

/-- One call writes at most one session, as its effect says. -/
theorem find_of_exit {op : Op} {r : Reply} {m' : SessionManager} (h : Exit clock m op r m')
    (id : UInt64) : m'.find id =
      if (m.effect op).subject = some id then (m.effect op).act (m.find id) else m.find id := by
  cases h with
  | beginDenied peer hd => simp [effect, hd, Effect.subject]
  | begun peer hd =>
    cases hn : m.find m.nextId with
    | none =>
      by_cases hi : m.nextId = id
      · subst hi
        simp [effect, hd, hn, Effect.subject, Effect.act]
      · simp [effect, hd, hn, Effect.subject, hi]
    | some s =>
      by_cases hi : m.nextId = id
      · subst hi
        simp [effect, hd, hn, Effect.subject]
      · simp [effect, hd, hn, Effect.subject, hi]
  | started i s hs =>
    simpa [effect, hs, Effect.subject, Effect.act] using
      write_eq_map hs (fun s => s.setState .authenticating) id
  | completeDenied i fp s hs hd =>
    simpa [effect, hs, hd, Effect.subject, Effect.act] using
      write_eq_map hs (fun s => s.setState .denied) id
  | authorizeRefused i requested s hs ha =>
    simpa [effect, hs, ha, Effect.subject, Effect.act] using
      write_eq_map hs (fun s => s.setState .denied) id
  | authorized i requested s hs ha =>
    have hw := write_eq_map hs (fun s => (s.grant (clamp requested m.ceiling)).setState .active) id
    rw [effect_authorize (Option.isSome_of_eq_some hs) ha]
    refine Eq.trans ?_ hw
    simp only [find_record, find_transition, find_store, find_auditRefused]
    split <;> rfl
  | denied i reason s hs =>
    simpa [effect, hs, Effect.subject, Effect.act] using
      write_eq_map hs (fun s => s.setState .denied) id
  | closed i s hs =>
    simpa [effect, hs, Effect.subject, Effect.act] using
      write_eq_map hs (fun s => s.setState .closed) id
  | setCapabilityCeiling | allowPeer | denyPeer | setStateCallback | setAuditCallback => rfl
  | _ => simp_all [effect, Effect.subject]

@[simp] theorem find_step (op : Op) (id : UInt64) :
    (m.step clock op).2.find id =
      if (m.effect op).subject = some id then (m.effect op).act (m.find id) else m.find id :=
  find_of_exit clock m (step_exit clock m op) id

/-- An audit record without its time. -/
structure Entry where
  fingerprint : String
  event : AuditEvent
  detail : String
  deriving DecidableEq, Repr

def stamp (n : ℕ) : List Entry → List AuditRecord
  | [] => []
  | e :: es => ⟨clock n, e.fingerprint, e.event, e.detail⟩ :: stamp (n + 1) es

def refusedEntries (fp : String) (requested : Capabilities) : List Entry :=
  if requested &&& ~~~(m.ceiling ||| .viewOnly) ≠ 0 then
    [⟨fp, .capabilityDenied, "above ceiling: requested=" ++ toString requested.toNat ++
      " ceiling=" ++ toString (m.ceiling ||| .viewOnly : Capabilities).toNat⟩]
  else []

/-- What a call on a known session logs. -/
def sessionEntries (s : Session) : Op → List Entry
  | .onHandshakeStarted _ => [⟨s.peer.fingerprint, .handshakeStarted, ""⟩]
  | .onHandshakeCompleted _ fp =>
    ⟨recordedAs s fp, .handshakeCompleted, ""⟩ ::
      if fp ∈ m.denyList then [⟨fp, .authFailed, "peer on deny-list (post-handshake)"⟩]
      else match m.tofuPins[s.peer.redeskId]? with
        | some pin =>
          if pin = fp then []
          else [⟨fp, .keyChangeDetected, "id=" ++ s.peer.redeskId ++ " expected=" ++ pin⟩]
        | none => []
  | .authorize _ requested =>
    m.refusedEntries s.peer.fingerprint requested ++
      if allowedBits requested m.ceiling = 0 then []
      else [⟨s.peer.fingerprint, .capabilityGranted,
          "granted=" ++ toString (clamp requested m.ceiling).toNat⟩,
        ⟨s.peer.fingerprint, .authSucceeded, ""⟩, ⟨s.peer.fingerprint, .sessionActivated, ""⟩]
  | .deny _ reason => [⟨s.peer.fingerprint, .authFailed, reason⟩]
  | .checkPermission _ needed =>
    if s.isAllowed needed then []
    else [⟨s.peer.fingerprint, .permissionCheckDenied,
      "needed=" ++ toString needed.toNat ++ " state=" ++ s.state.toString⟩]
  | .closeSession _ => [⟨s.peer.fingerprint, .sessionClosed, ""⟩]
  | _ => []

/-- What a call logs. -/
def entries : Op → List Entry
  | .beginSession peer =>
    if peer.fingerprint ∈ m.denyList then
      [⟨peer.fingerprint, .capabilityDenied, "peer on deny-list"⟩]
    else [⟨peer.fingerprint, .sessionRequested, "id=" ++ peer.redeskId⟩]
  | op => match op.target.bind m.find with
    | some s => m.sessionEntries s op
    | none => []

@[simp] theorem audit_record (fp detail : String) (ev : AuditEvent) :
    (m.record clock fp ev detail).audit =
      m.audit ++ stamp clock m.audit.length [⟨fp, ev, detail⟩] := rfl

@[simp] theorem audit_transition (id : UInt64) (s : Session) (next : SessionState) :
    (m.transition id s next).audit = m.audit := rfl

@[simp] theorem audit_store (id : UInt64) (s : Session) : (m.store id s).audit = m.audit := rfl

@[simp] theorem audit_emplace (id : UInt64) (s : Session) : (m.emplace id s).audit = m.audit := rfl

@[simp] theorem audit_takeId : m.takeId.audit = m.audit := rfl

@[simp] theorem audit_pin (r fp : String) : (m.pin r fp).audit = m.audit := rfl

theorem stamp_append (n : ℕ) (es fs : List Entry) :
    stamp clock n (es ++ fs) = stamp clock n es ++ stamp clock (n + es.length) fs := by
  induction es generalizing n with
  | nil => rfl
  | cons e es ih =>
    have hn : n + 1 + es.length = n + (es.length + 1) := by omega
    simp [stamp, ih, hn]

@[simp] theorem length_stamp (n : ℕ) (es : List Entry) : (stamp clock n es).length = es.length := by
  induction es generalizing n with
  | nil => rfl
  | cons e es ih => simp [stamp, ih]

theorem audit_auditRefused (fp : String) (requested : Capabilities) :
    (m.auditRefused clock fp requested).audit =
      m.audit ++ stamp clock m.audit.length (m.refusedEntries fp requested) := by
  unfold auditRefused refusedEntries
  split
  · rfl
  · simp [stamp]

theorem audit_of_exit {op : Op} {r : Reply} {m' : SessionManager} (h : Exit clock m op r m') :
    m'.audit = m.audit ++ stamp clock m.audit.length (m.entries op) := by
  cases h with
  | authorized i requested s hs ha =>
    have he : m.entries (.authorize i requested) =
        m.refusedEntries s.peer.fingerprint requested ++
          [⟨s.peer.fingerprint, .capabilityGranted,
            "granted=" ++ toString (clamp requested m.ceiling).toNat⟩,
          ⟨s.peer.fingerprint, .authSucceeded, ""⟩,
          ⟨s.peer.fingerprint, .sessionActivated, ""⟩] := by
      simp only [entries, Op.target, Option.bind_some, hs, sessionEntries, if_neg ha]
    rw [he]
    simp only [audit_record, audit_transition, audit_store, audit_auditRefused, stamp_append,
      List.append_assoc, List.length_append, length_stamp]
    simp [stamp, Nat.add_assoc]
  | setCapabilityCeiling | allowPeer | denyPeer | setStateCallback | setAuditCallback =>
    simp [entries, Op.target, stamp]
    rfl
  | _ => simp_all [entries, Op.target, sessionEntries, stamp, audit_auditRefused]

@[simp] theorem audit_step (op : Op) :
    (m.step clock op).2.audit = m.audit ++ stamp clock m.audit.length (m.entries op) :=
  audit_of_exit clock m (step_exit clock m op)

/-- The machine's policy: its ceiling and its deny list. -/
def policy : Capabilities × Finset String := (m.ceiling, m.denyList)

@[simp] theorem policy_auditRefused (fp : String) (requested : Capabilities) :
    (m.auditRefused clock fp requested).policy = m.policy := by
  unfold auditRefused
  split <;> rfl

@[simp] theorem tofuPins_auditRefused (fp : String) (requested : Capabilities) :
    (m.auditRefused clock fp requested).tofuPins = m.tofuPins := by
  unfold auditRefused
  split <;> rfl

def policyAfter : Op → Capabilities × Finset String
  | .setCapabilityCeiling ceiling => (ceiling, m.denyList)
  | .allowPeer fp => (m.ceiling, m.denyList.erase fp)
  | .denyPeer fp => (m.ceiling, insert fp m.denyList)
  | _ => m.policy

theorem policy_step (op : Op) : (m.step clock op).2.policy = m.policyAfter op := by
  have h := step_exit clock m op
  generalize (m.step clock op).1 = r, (m.step clock op).2 = m' at h
  cases h with
  | authorizeRefused i requested s hs ha => exact m.policy_auditRefused clock _ requested
  | authorized i requested s hs ha => exact m.policy_auditRefused clock _ requested
  | _ => rfl

def pinsAfter : Op → Std.ExtTreeMap String String
  | .onHandshakeCompleted id fp =>
    match m.find id with
    | some s =>
      if fp ∈ m.denyList ∨ s.peer.redeskId ∈ m.tofuPins then m.tofuPins
      else m.tofuPins.insert s.peer.redeskId fp
    | none => m.tofuPins
  | _ => m.tofuPins

theorem tofuPins_step (op : Op) : (m.step clock op).2.tofuPins = m.pinsAfter op := by
  have h := step_exit clock m op
  generalize (m.step clock op).1 = r, (m.step clock op).2 = m' at h
  cases h with
  | authorizeRefused i requested s hs ha => exact m.tofuPins_auditRefused clock _ requested
  | authorized i requested s hs ha => exact m.tofuPins_auditRefused clock _ requested
  | completeUnknown id fp hs => simp [pinsAfter, hs]
  | completeDenied id fp s hs hd =>
    simp only [pinsAfter, hs, hd, true_or, if_true]
    rfl
  | keyChanged id fp pin s hs hd hp hne =>
    have hm := mem_tofuPins hp
    simp only [pinsAfter, hs, hm, or_true, if_true]
    rfl
  | keyMatched id fp s hs hd hp =>
    have hm := mem_tofuPins hp
    simp only [pinsAfter, hs, hm, or_true, if_true]
    rfl
  | firstContact id fp s hs hd hp =>
    have hm := notMem_tofuPins hp
    simp only [pinsAfter, hs, hd, hm, or_self, if_false]
    rfl
  | _ => rfl

end Redesk.SessionManager
