import Redesk.Common.Types

/-! The session manager: lifecycle, default-deny permission gate and audit log keyed by
fingerprint. Callbacks observe the manager and do not call back into it; what an installed
callback is called with is kept in `notices`. -/
namespace Redesk

/-- Per-session capability bitflags. Any mask of the underlying type can be passed. -/
abbrev Capabilities := BitVec 32

namespace Capabilities

def none : Capabilities := 0
def viewOnly : Capabilities := 1 <<< 0
def control : Capabilities := 1 <<< 1
def clipboard : Capabilities := 1 <<< 2
def fileTransfer : Capabilities := 1 <<< 3
def audio : Capabilities := 1 <<< 4
def inputInjection : Capabilities := 1 <<< 5
def elevation : Capabilities := 1 <<< 6

end Capabilities

/-- Every bit of `needed` is present in `granted`. -/
def hasCapability (granted needed : Capabilities) : Bool := granted &&& needed == needed

inductive SessionState where
  | pending | authenticating | active | denied | closed
  deriving DecidableEq, Repr

def SessionState.toString : SessionState → String
  | .pending => "Pending"
  | .authenticating => "Authenticating"
  | .active => "Active"
  | .denied => "Denied"
  | .closed => "Closed"

inductive AuditEvent where
  | sessionRequested | handshakeStarted | handshakeCompleted | authSucceeded | authFailed
  | capabilityGranted | capabilityDenied | permissionCheckDenied | keyChangeDetected
  | sessionActivated | sessionClosed
  deriving DecidableEq, Repr

structure AuditRecord where
  timestampUs : UInt64
  peerFingerprint : String
  event : AuditEvent
  detail : String
  deriving DecidableEq, Repr

/-- Identity of the remote party as known when the session is set up. -/
structure PeerInfo where
  redeskId : String
  fingerprint : String
  staticKey : Vector UInt8 32 := Vector.replicate 32 0
  deriving DecidableEq, Repr

structure Session where
  id : UInt64
  peer : PeerInfo
  state : SessionState := .pending
  granted : Capabilities := .none
  deriving DecidableEq, Repr

namespace Session

def isAllowed (s : Session) (needed : Capabilities) : Bool :=
  decide (s.state = .active) && hasCapability s.granted needed

def setState (s : Session) (next : SessionState) : Session := { s with state := next }

def grant (s : Session) (caps : Capabilities) : Session := { s with granted := s.granted ||| caps }

end Session

/-- A call of an installed callback. -/
inductive Notice where
  | state (sessionId : UInt64) (next : SessionState)
  | audit (r : AuditRecord)
  deriving DecidableEq, Repr

structure SessionManager where
  sessions : Std.ExtTreeMap UInt64 Session := ∅
  nextId : UInt64 := 1
  audit : List AuditRecord := []
  stateCb : Bool := false
  auditCb : Bool := false
  notices : List Notice := []
  ceiling : Capabilities := .viewOnly
  allowList : Finset String := ∅
  denyList : Finset String := ∅
  tofuPins : Std.ExtTreeMap String String := ∅

namespace SessionManager

def find (m : SessionManager) (sessionId : UInt64) : Option Session := m.sessions[sessionId]?

/-- Write a session through the reference that `find` gave. -/
def store (m : SessionManager) (sessionId : UInt64) (s : Session) : SessionManager :=
  { m with sessions := m.sessions.insert sessionId s }

/-- `emplace`: an entry that is already there is left as it is. -/
def emplace (m : SessionManager) (sessionId : UInt64) (s : Session) : SessionManager :=
  { m with sessions := m.sessions.insertIfNew sessionId s }

/-- `next_id++` wraps at the width of the counter. -/
def takeId (m : SessionManager) : SessionManager := { m with nextId := m.nextId + 1 }

/-- Pin the fingerprint that a routing id was first seen with. -/
def pin (m : SessionManager) (redeskId fingerprint : String) : SessionManager :=
  { m with tofuPins := m.tofuPins.insert redeskId fingerprint }

def transition (m : SessionManager) (sessionId : UInt64) (s : Session) (next : SessionState) :
    SessionManager :=
  { m.store sessionId (s.setState next) with
    notices := if m.stateCb then m.notices ++ [.state s.id next] else m.notices }

section Operations
-- `clock n` is the system time that the `n`-th audit record reads
variable (clock : ℕ → UInt64) (m : SessionManager)

def record (fingerprint : String) (event : AuditEvent) (detail : String) : SessionManager :=
  let r : AuditRecord := ⟨clock m.audit.length, fingerprint, event, detail⟩
  { m with
    audit := m.audit ++ [r]
    notices := if m.auditCb then m.notices ++ [.audit r] else m.notices }

def beginSession (peer : PeerInfo) : Result UInt64 × SessionManager :=
  if m.denyList ≠ ∅ ∧ peer.fingerprint ∈ m.denyList then
    (.fail .permissionDenied "peer is on the deny list",
      m.record clock peer.fingerprint .capabilityDenied "peer on deny-list")
  else
    let id := m.nextId
    let m := m.takeId.emplace id { id := id, peer := peer }
    (.good id, m.record clock peer.fingerprint .sessionRequested ("id=" ++ peer.redeskId))

def onHandshakeStarted (sessionId : UInt64) : Status × SessionManager :=
  match m.find sessionId with
  | none => (.error .notFound "unknown session", m)
  | some s =>
    let m := m.transition sessionId s .authenticating
    (.success, m.record clock s.peer.fingerprint .handshakeStarted "")

def onHandshakeCompleted (sessionId : UInt64) (peerFingerprint : String) :
    Status × SessionManager :=
  match m.find sessionId with
  | none => (.error .notFound "unknown session", m)
  | some s =>
    -- a copy of the session's peer, which is not written back
    let peer := if s.peer.fingerprint = "" then { s.peer with fingerprint := peerFingerprint }
      else s.peer
    let m := m.record clock peer.fingerprint .handshakeCompleted ""
    if peerFingerprint ∈ m.denyList then
      let m := m.record clock peerFingerprint .authFailed "peer on deny-list (post-handshake)"
      (.error .permissionDenied "peer denied", m.transition sessionId s .denied)
    else
      match m.tofuPins[peer.redeskId]? with
      | some pin =>
        if pin ≠ peerFingerprint then
          (.success, m.record clock peerFingerprint .keyChangeDetected
            ("id=" ++ peer.redeskId ++ " expected=" ++ pin))
        else (.success, m)
      | none => (.success, m.pin peer.redeskId peerFingerprint)

def authorize (sessionId : UInt64) (requested : Capabilities) : Status × SessionManager :=
  match m.find sessionId with
  | none => (.error .notFound "unknown session", m)
  | some s =>
    let fp := s.peer.fingerprint
    let ceilingBits := m.ceiling ||| .viewOnly
    let allowedBits := requested &&& ceilingBits
    let refusedBits := requested &&& ~~~ceilingBits
    let m :=
      if refusedBits ≠ 0 then
        m.record clock fp .capabilityDenied ("above ceiling: requested=" ++
          toString requested.toNat ++ " ceiling=" ++ toString ceilingBits.toNat)
      else m
    if allowedBits = 0 then
      (.error .permissionDenied "no requested capability is within policy",
        m.transition sessionId s .denied)
    else
      let s := s.grant (allowedBits ||| .viewOnly)
      let m := m.store sessionId s
      let m := m.record clock fp .capabilityGranted
        ("granted=" ++ toString (allowedBits ||| .viewOnly : Capabilities).toNat)
      let m := m.record clock fp .authSucceeded ""
      let m := m.transition sessionId s .active
      (.success, m.record clock fp .sessionActivated "")

def deny (sessionId : UInt64) (reason : String) : Status × SessionManager :=
  match m.find sessionId with
  | none => (.error .notFound "unknown session", m)
  | some s =>
    let m := m.record clock s.peer.fingerprint .authFailed reason
    (.success, m.transition sessionId s .denied)

def checkPermission (sessionId : UInt64) (needed : Capabilities) : Bool × SessionManager :=
  match m.find sessionId with
  | none => (false, m)
  | some s =>
    if s.isAllowed needed then (true, m)
    else (false, m.record clock s.peer.fingerprint .permissionCheckDenied
      ("needed=" ++ toString needed.toNat ++ " state=" ++ s.state.toString))

def closeSession (sessionId : UInt64) : Status × SessionManager :=
  match m.find sessionId with
  | none => (.error .notFound "unknown session", m)
  | some s =>
    let m := m.transition sessionId s .closed
    (.success, m.record clock s.peer.fingerprint .sessionClosed "")

def isBeingControlled : Bool :=
  m.sessions.toList.any fun e =>
    decide (e.2.state = .active) && hasCapability e.2.granted .control

def setStateCallback (installed : Bool) : SessionManager := { m with stateCb := installed }

def setAuditCallback (installed : Bool) : SessionManager := { m with auditCb := installed }

def setCapabilityCeiling (ceiling : Capabilities) : SessionManager :=
  { m with ceiling := ceiling }

def allowPeer (fingerprint : String) : SessionManager :=
  { m with
    allowList := insert fingerprint m.allowList
    denyList := m.denyList.erase fingerprint }

def denyPeer (fingerprint : String) : SessionManager :=
  { m with
    denyList := insert fingerprint m.denyList
    allowList := m.allowList.erase fingerprint }

end Operations

/-- One call of the manager's interface. -/
inductive Op where
  | beginSession (peer : PeerInfo)
  | onHandshakeStarted (sessionId : UInt64)
  | onHandshakeCompleted (sessionId : UInt64) (peerFingerprint : String)
  | authorize (sessionId : UInt64) (requested : Capabilities)
  | deny (sessionId : UInt64) (reason : String)
  | checkPermission (sessionId : UInt64) (needed : Capabilities)
  | closeSession (sessionId : UInt64)
  | setCapabilityCeiling (ceiling : Capabilities)
  | allowPeer (fingerprint : String)
  | denyPeer (fingerprint : String)
  | setStateCallback (installed : Bool)
  | setAuditCallback (installed : Bool)
  deriving DecidableEq, Repr

/-- What a call returns. -/
inductive Reply where
  | id (r : Result UInt64)
  | status (s : Status)
  | allowed (b : Bool)
  | done
  deriving DecidableEq, Repr

def step (clock : ℕ → UInt64) (m : SessionManager) : Op → Reply × SessionManager
  | .beginSession peer => (m.beginSession clock peer).map .id id
  | .onHandshakeStarted sessionId => (m.onHandshakeStarted clock sessionId).map .status id
  | .onHandshakeCompleted sessionId fp =>
    (m.onHandshakeCompleted clock sessionId fp).map .status id
  | .authorize sessionId requested => (m.authorize clock sessionId requested).map .status id
  | .deny sessionId reason => (m.deny clock sessionId reason).map .status id
  | .checkPermission sessionId needed =>
    (m.checkPermission clock sessionId needed).map .allowed id
  | .closeSession sessionId => (m.closeSession clock sessionId).map .status id
  | .setCapabilityCeiling ceiling => (.done, m.setCapabilityCeiling ceiling)
  | .allowPeer fp => (.done, m.allowPeer fp)
  | .denyPeer fp => (.done, m.denyPeer fp)
  | .setStateCallback installed => (.done, m.setStateCallback installed)
  | .setAuditCallback installed => (.done, m.setAuditCallback installed)

end SessionManager

end Redesk
