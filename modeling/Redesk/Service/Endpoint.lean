import Redesk.Machine.Descriptors
import Redesk.Service.IpcServer

/-! The endpoint of the local IPC server: starting, serving and stopping as the calls of the system
that they make, and who can reach the service at any point between two of these. -/
namespace Redesk.Service
open Machine

/-- A call of the system that took effect. -/
inductive Syscall where
  | socket (fd : ℤ)
  | unlink (path : String)
  | bind (fd : ℤ) (path : String)
  | chmod (path : String) (mode : ℕ)
  | listen (fd : ℤ)
  | shutdown (fd : ℤ)
  | accept (fd : ℤ)
  | close (fd : ℤ)
  deriving DecidableEq, Repr

/-- What the system answers to a start: the descriptor of `socket`, negative if there is none, and
whether the other calls succeed, the `unlink` that comes first and the one of a failure's stop
among them. -/
structure SystemAnswers where
  socket : ℤ
  unlinkStale : Bool := true
  bind : Bool := true
  chmod : Bool := true
  listen : Bool := true
  unlink : Bool := true
  deriving DecidableEq, Repr

/-- `sizeof(sockaddr_un::sun_path)`. -/
def sunPathSize : ℕ := 108

/-- `S_IRUSR | S_IWUSR`. -/
def ownerOnly : ℕ := 0o600

structure UdsIpcServer where
  config : Config := {}
  handler : Option IpcMessageHandler := none
  listenFd : ℤ := -1
  /-- Whether the accept thread is joinable. -/
  accepting : Bool := false
  endpoint : String := ""
  running : Bool := false
  trace : List Syscall := []

namespace UdsIpcServer

def emit (s : UdsIpcServer) (c : Syscall) : UdsIpcServer := { s with trace := s.trace ++ [c] }

def closeListener (s : UdsIpcServer) : UdsIpcServer :=
  if 0 ≤ s.listenFd then
    { (s.emit (.shutdown s.listenFd)).emit (.close s.listenFd) with listenFd := -1 }
  else s

/-- Nobody looks at the result: a node that is somebody else's may stay. -/
def unlink (s : UdsIpcServer) (unlinked : Bool) : UdsIpcServer :=
  if unlinked then s.emit (.unlink s.endpoint) else s

def removeEndpoint (s : UdsIpcServer) (unlinked : Bool) : UdsIpcServer :=
  if s.endpoint ≠ "" then s.unlink unlinked else s

def stop (s : UdsIpcServer) (unlinked : Bool) : UdsIpcServer :=
  let s := { s with running := false }.closeListener
  -- the thread is joined
  { s with accepting := false }.removeEndpoint unlinked

/-- The part of a start that has a descriptor and has tried to clear its way. -/
def bringUp (s : UdsIpcServer) (a : SystemAnswers) : Status × UdsIpcServer :=
  if sunPathSize ≤ s.endpoint.utf8ByteSize then
    (.error .invalidArgument ("UDS path too long: " ++ s.endpoint), s.stop a.unlink)
  else if !a.bind then
    (.error .permissionDenied ("bind() failed on " ++ s.endpoint), s.stop a.unlink)
  else
    let s := s.emit (.bind s.listenFd s.endpoint)
    if !a.chmod then
      (.error .permissionDenied ("chmod 0600 failed on " ++ s.endpoint), s.stop a.unlink)
    else
      let s := s.emit (.chmod s.endpoint ownerOnly)
      if !a.listen then (.error .internal "listen() failed", s.stop a.unlink)
      else
        let s := s.emit (.listen s.listenFd)
        (.success, { s with running := true, accepting := true })

def start (s : UdsIpcServer) (endpoint : String) (config : Config)
    (handler : Option IpcMessageHandler) (a : SystemAnswers) : Status × UdsIpcServer :=
  let s := { s with config, handler, endpoint, listenFd := a.socket }
  if s.listenFd < 0 then (.error .internal "socket() failed", s)
  else ((s.emit (.socket s.listenFd)).unlink a.unlinkStale).bringUp a

/-- A round of `AcceptLoop` that got a connection. -/
def serve (s : UdsIpcServer) (fd : ℤ) : UdsIpcServer := (s.emit (.accept fd)).emit (.close fd)

inductive Op where
  | start (endpoint : String) (config : Config) (handler : Option IpcMessageHandler)
    (a : SystemAnswers)
  | connection (fd : ℤ)
  | stop (unlinked : Bool)

/-- Only the start of a server returns anything. -/
def step (s : UdsIpcServer) : Op → Option Status × UdsIpcServer
  | .start endpoint config handler a =>
    ((s.start endpoint config handler a).1, (s.start endpoint config handler a).2)
  | .connection fd => (none, if s.running then s.serve fd else s)
  | .stop unlinked => (none, s.stop unlinked)

end UdsIpcServer

/-- The descriptors that the calls open and close. -/
def Syscall.descriptor : Syscall → Option (Descriptors.Call ℤ)
  | .socket fd | .accept fd => some (.opened fd)
  | .close fd => some (.closed fd)
  | _ => none

def descriptors (t : List Syscall) : List (Descriptors.Call ℤ) := t.filterMap Syscall.descriptor

section Nodes
-- the nodes that others left, and the mode that a new node has
variable (nodes : String → Option ℕ) (umasked : ℕ)

/-- The path that a descriptor is bound to. -/
def boundTo (t : List Syscall) (fd : ℤ) : Option String :=
  latest (fun
    | .bind fd' path => if fd' = fd then some path else none
    | _ => none) t

/-- The mode of the node at a path, if there is one. Nobody else removes or replaces a node that the
server made. -/
def modeAt (t : List Syscall) (path : String) : Option ℕ :=
  (latest (fun
    | .bind _ path' => if path' = path then some (some umasked) else none
    | .chmod path' mode => if path' = path then some (some mode) else none
    | .unlink path' => if path' = path then some none else none
    | _ => none) t).getD (nodes path)

/-- A descriptor on which clients can connect. -/
def Listening (t : List Syscall) (fd : ℤ) : Prop := Since (· = .listen fd) (· = .shutdown fd) t

/-- Clients can connect through nodes only that their owner alone can use. -/
def Hardened (t : List Syscall) : Prop :=
  ∀ fd, Listening t fd →
    ∃ path, boundTo t fd = some path ∧ modeAt nodes umasked t path = some ownerOnly

/-- At no time was the service open to anybody else. -/
def Secure (t : List Syscall) : Prop := ∀ t', t' <+: t → Hardened nodes umasked t'

namespace UdsIpcServer

/-- A server is started when it is not running, and the system gives out descriptors that are not
open. -/
def Legal (s : UdsIpcServer) : Op → Prop
  | .start _ _ _ a => s.running = false ∧
    (0 ≤ a.socket → ¬ Descriptors.IsOpen (descriptors s.trace) a.socket)
  | .connection fd => ¬ Descriptors.IsOpen (descriptors s.trace) fd
  | .stop _ => True

/-- What holds of a server in every run. -/
structure Guarded (h : List (Call UdsIpcServer Op (Option Status))) (s : UdsIpcServer) :
    Prop where
  secure : Secure nodes umasked s.trace
  /-- Of all descriptors it opened, a server keeps the one it listens on. -/
  owned : Descriptors.Owned (descriptors s.trace) fun _ : Unit =>
    if s.running then some s.listenFd else none
  listening : ∀ fd, Listening s.trace fd ↔ s.running = true ∧ fd = s.listenFd
  /-- A start succeeds if all its calls do, and the server runs then. -/
  started : ∀ c ∈ h, ∀ endpoint config handler a, c.op = .start endpoint config handler a →
    c.post.running = decide (c.res = some .success) ∧
      (c.res = some .success ↔ 0 ≤ a.socket ∧ endpoint.utf8ByteSize < sunPathSize ∧ a.bind ∧
        a.chmod ∧ a.listen)
  /-- A stop leaves no node that the system lets it remove, and neither does a start that fails with
  a descriptor in hand. -/
  removed : ∀ c ∈ h, (c.op = .stop true ∨ ∃ endpoint config handler a,
      c.op = .start endpoint config handler a ∧ 0 ≤ a.socket ∧ c.res ≠ some .success ∧
        a.unlink = true) →
    c.post.endpoint ≠ "" → modeAt nodes umasked c.post.trace c.post.endpoint = none

end UdsIpcServer
end Nodes

variable {nodes : String → Option ℕ} {umasked : ℕ} {t : List Syscall} {c : Syscall} {fd : ℤ}
  {path : String}

theorem listening_snoc :
    Listening (t ++ [c]) fd ↔ c = .listen fd ∨ c ≠ .shutdown fd ∧ Listening t fd := since_snoc

@[simp] theorem descriptors_snoc :
    descriptors (t ++ [c]) = descriptors t ++ c.descriptor.toList := by
  cases c <;> simp [descriptors, Syscall.descriptor]

theorem Secure.snoc (hs : Secure nodes umasked t) (hc : Hardened nodes umasked (t ++ [c])) :
    Secure nodes umasked (t ++ [c]) := by
  intro t' ht'
  rcases List.prefix_concat_iff.mp ht' with rfl | ht'
  · exact hc
  · exact hs t' ht'

theorem Secure.hardened (hs : Secure nodes umasked t) : Hardened nodes umasked t :=
  hs t List.prefix_rfl

/-- A call that only concerns descriptors changes no node. -/
theorem Hardened.snoc (ht : Hardened nodes umasked t)
    (hc : c = .shutdown fd ∨ c = .accept fd ∨ c = .close fd) :
    Hardened nodes umasked (t ++ [c]) := by
  intro fd' hl
  have hl' : Listening t fd' := by
    rcases listening_snoc.mp hl with hlisten | ⟨-, hl⟩
    · rcases hc with rfl | rfl | rfl <;> cases hlisten
    · exact hl
  obtain ⟨path, hb, hm⟩ := ht fd' hl'
  refine ⟨path, ?_, ?_⟩
  · rw [← hb]
    rcases hc with rfl | rfl | rfl <;> simp [boundTo]
  · rw [← hm]
    rcases hc with rfl | rfl | rfl <;> simp [modeAt]

/-- Where nothing listens, no call but `listen` opens the service. -/
theorem Secure.snoc_idle (hs : Secure nodes umasked t) (hidle : ∀ fd, ¬ Listening t fd)
    (hc : ∀ fd, c ≠ .listen fd) :
    Secure nodes umasked (t ++ [c]) ∧ ∀ fd, ¬ Listening (t ++ [c]) fd := by
  have hidle' : ∀ fd, ¬ Listening (t ++ [c]) fd := by
    intro fd hl
    rcases listening_snoc.mp hl with hlisten | ⟨-, hl⟩
    · exact hc fd hlisten
    · exact hidle fd hl
  exact ⟨hs.snoc fun fd hl => absurd hl (hidle' fd), hidle'⟩

namespace UdsIpcServer
variable {s : UdsIpcServer} {a : SystemAnswers} {endpoint : String} {config : Config}
  {handler : Option IpcMessageHandler}

@[simp] theorem trace_emit (s : UdsIpcServer) (c : Syscall) : (s.emit c).trace = s.trace ++ [c] :=
  rfl

@[simp] theorem listenFd_emit (s : UdsIpcServer) (c : Syscall) : (s.emit c).listenFd = s.listenFd :=
  rfl

@[simp] theorem running_emit (s : UdsIpcServer) (c : Syscall) : (s.emit c).running = s.running :=
  rfl

@[simp] theorem endpoint_emit (s : UdsIpcServer) (c : Syscall) : (s.emit c).endpoint = s.endpoint :=
  rfl

/-- The server holds its descriptor and nothing else, whether it listens on it or not. -/
structure Held (nodes : String → Option ℕ) (umasked : ℕ) (s : UdsIpcServer) : Prop where
  secure : Secure nodes umasked s.trace
  owned : Descriptors.Owned (descriptors s.trace) fun _ : Unit =>
    if 0 ≤ s.listenFd then some s.listenFd else none
  listens : ∀ fd, Listening s.trace fd → 0 ≤ s.listenFd ∧ fd = s.listenFd

/-- What holds between two operations. -/
structure Settled (nodes : String → Option ℕ) (umasked : ℕ) (s : UdsIpcServer) : Prop extends
    Held nodes umasked s where
  running_iff : s.running = true ↔ 0 ≤ s.listenFd
  listening : s.running = true → Listening s.trace s.listenFd

theorem Held.snoc_idle (hs : Held nodes umasked s) (hidle : ∀ fd, ¬ Listening s.trace fd)
    (hc : ∀ fd, c ≠ .listen fd) (hd : c.descriptor = none) :
    Held nodes umasked (s.emit c) ∧ ∀ fd, ¬ Listening (s.emit c).trace fd := by
  obtain ⟨hsecure, hidle⟩ := hs.secure.snoc_idle hidle hc
  refine ⟨⟨hsecure, ?_, fun fd hl => absurd hl (hidle fd)⟩, hidle⟩
  rw [trace_emit, descriptors_snoc, hd, Option.toList_none, List.append_nil]
  exact hs.owned

theorem Held.congr {s' : UdsIpcServer} (hs : Held nodes umasked s) (ht : s'.trace = s.trace)
    (hf : s'.listenFd = s.listenFd) : Held nodes umasked s' := by
  refine ⟨ht ▸ hs.secure, ?_, ?_⟩
  · rw [ht, hf]
    exact hs.owned
  · rw [ht, hf]
    exact hs.listens

/-- The descriptor is shut down before it is closed, and is not used again. -/
theorem Held.closeListener (hs : Held nodes umasked s) :
    Held nodes umasked s.closeListener ∧ (∀ fd, ¬ Listening s.closeListener.trace fd) ∧
      s.closeListener.listenFd < 0 := by
  unfold UdsIpcServer.closeListener
  by_cases hfd : 0 ≤ s.listenFd
  swap
  · rw [if_neg hfd]
    exact ⟨hs, fun fd hl => hfd (hs.listens fd hl).1, not_le.mp hfd⟩
  rw [if_pos hfd]
  have hshut : ∀ fd, ¬ Listening (s.trace ++ [.shutdown s.listenFd]) fd := by
    intro fd hl
    rcases listening_snoc.mp hl with hlisten | ⟨hne, hl⟩
    · cases hlisten
    · exact hne (by rw [(hs.listens fd hl).2])
  have hsecure := hs.secure.snoc (hs.secure.hardened.snoc (c := .shutdown s.listenFd) (.inl rfl))
  obtain ⟨hsecure, hidle⟩ := hsecure.snoc_idle (c := .close s.listenFd) hshut (by simp)
  refine ⟨⟨hsecure, ?_, fun fd hl => absurd hl (hidle fd)⟩, hidle, by simp⟩
  have hreleased := hs.owned.release (i := ()) (if_pos hfd)
  have hnone : Function.update (fun _ : Unit => if 0 ≤ s.listenFd then some s.listenFd else none)
      () none = fun _ => none := by
    funext u
    simp
  rw [hnone] at hreleased
  simp only [trace_emit, descriptors_snoc, Syscall.descriptor, Option.toList_none, List.append_nil]
  exact hreleased

/-- Where nothing listens, a node may go or stay. -/
theorem Held.unlink (hs : Held nodes umasked s) (hidle : ∀ fd, ¬ Listening s.trace fd)
    (unlinked : Bool) :
    Held nodes umasked (s.unlink unlinked) ∧ ∀ fd, ¬ Listening (s.unlink unlinked).trace fd := by
  unfold UdsIpcServer.unlink
  split
  · exact hs.snoc_idle hidle (by simp) rfl
  · exact ⟨hs, hidle⟩

@[simp] theorem running_unlink (s : UdsIpcServer) (unlinked : Bool) :
    (s.unlink unlinked).running = s.running := by
  unfold UdsIpcServer.unlink
  split <;> rfl

@[simp] theorem listenFd_unlink (s : UdsIpcServer) (unlinked : Bool) :
    (s.unlink unlinked).listenFd = s.listenFd := by
  unfold UdsIpcServer.unlink
  split <;> rfl

@[simp] theorem endpoint_unlink (s : UdsIpcServer) (unlinked : Bool) :
    (s.unlink unlinked).endpoint = s.endpoint := by
  unfold UdsIpcServer.unlink
  split <;> rfl

/-- A server without descriptor that is not running is settled, also once the node is gone. -/
theorem Held.removeEndpoint (hs : Held nodes umasked s) (hidle : ∀ fd, ¬ Listening s.trace fd)
    (hfd : s.listenFd < 0) (hrun : s.running = false) (unlinked : Bool) :
    Settled nodes umasked (s.removeEndpoint unlinked) ∧
      (s.removeEndpoint unlinked).running = false := by
  unfold UdsIpcServer.removeEndpoint
  split
  · obtain ⟨hs, -⟩ := hs.unlink hidle unlinked
    refine ⟨{ toHeld := hs, running_iff := ?_, listening := ?_ }, ?_⟩ <;> simp [hrun, hfd]
  · exact ⟨{ toHeld := hs, running_iff := by simp [hrun, hfd], listening := by simp [hrun] }, hrun⟩

@[simp] theorem running_closeListener (s : UdsIpcServer) :
    s.closeListener.running = s.running := by
  unfold UdsIpcServer.closeListener
  split <;> rfl

@[simp] theorem endpoint_closeListener (s : UdsIpcServer) :
    s.closeListener.endpoint = s.endpoint := by
  unfold UdsIpcServer.closeListener
  split <;> rfl

theorem Held.stop (hs : Held nodes umasked s) (unlinked : Bool) :
    Settled nodes umasked (s.stop unlinked) ∧ (s.stop unlinked).running = false := by
  have hs' : Held nodes umasked { s with running := false } := hs.congr rfl rfl
  obtain ⟨hclosed, hidle, hfd⟩ := hs'.closeListener
  have hjoined : Held nodes umasked
      { UdsIpcServer.closeListener { s with running := false } with accepting := false } :=
    hclosed.congr rfl rfl
  exact hjoined.removeEndpoint hidle hfd (by simp) unlinked

/-- Where the endpoint has a name, nothing is left there that can be removed. -/
theorem modeAt_removeEndpoint (s : UdsIpcServer) (hne : (s.removeEndpoint true).endpoint ≠ "") :
    modeAt nodes umasked (s.removeEndpoint true).trace (s.removeEndpoint true).endpoint = none := by
  unfold UdsIpcServer.removeEndpoint at hne ⊢
  by_cases hname : s.endpoint ≠ ""
  · rw [if_pos hname, UdsIpcServer.unlink, if_pos rfl]
    simp [modeAt]
  · rw [if_neg hname] at hne
    exact absurd hne hname

theorem modeAt_stop (s : UdsIpcServer) (hne : (s.stop true).endpoint ≠ "") :
    modeAt nodes umasked (s.stop true).trace (s.stop true).endpoint = none :=
  modeAt_removeEndpoint _ hne

theorem Settled.owned_none (hs : Settled nodes umasked s) (hrun : s.running = false) :
    Descriptors.Owned (descriptors s.trace) fun _ : Unit => none := by
  have hfd : ¬ 0 ≤ s.listenFd := by simp [← hs.running_iff, hrun]
  simpa only [if_neg hfd] using hs.owned

theorem Settled.idle (hs : Settled nodes umasked s) (hrun : s.running = false) (fd : ℤ) :
    ¬ Listening s.trace fd := by
  intro hl
  have hfd := hs.running_iff.mpr (hs.listens fd hl).1
  simp [hrun] at hfd

/-- A server that was not running has got its descriptor. -/
theorem Settled.acquire (hs : Settled nodes umasked s) (hrun : s.running = false) (hfd : 0 ≤ fd)
    (hfresh : ¬ Descriptors.IsOpen (descriptors s.trace) fd) (s' : UdsIpcServer)
    (ht : s'.trace = s.trace ++ [.socket fd]) (hf : s'.listenFd = fd) :
    Held nodes umasked s' ∧ ∀ fd, ¬ Listening s'.trace fd := by
  obtain ⟨hsecure, hidle⟩ := hs.secure.snoc_idle (c := .socket fd) (hs.idle hrun) (by simp)
  rw [← ht] at hsecure hidle
  refine ⟨⟨hsecure, ?_, fun fd hl => absurd hl (hidle fd)⟩, hidle⟩
  have htaken := (hs.owned_none hrun).take (i := ()) rfl hfresh
  have hheld : Function.update (fun _ : Unit => (none : Option ℤ)) () (some fd) =
      fun _ => if 0 ≤ s'.listenFd then some s'.listenFd else none := by
    funext u
    simp [hf, hfd]
  rw [hheld] at htaken
  rw [ht, descriptors_snoc]
  exact htaken

/-- A server listens once its node is the owner's alone. -/
theorem Held.listen (hs : Held nodes umasked s) (hidle : ∀ fd, ¬ Listening s.trace fd)
    (hfd : 0 ≤ s.listenFd) (hb : boundTo s.trace s.listenFd = some path)
    (hm : modeAt nodes umasked s.trace path = some ownerOnly) {s' : UdsIpcServer}
    (ht : s'.trace = s.trace ++ [.listen s.listenFd]) (hf : s'.listenFd = s.listenFd)
    (hrun : s'.running = true) : Settled nodes umasked s' := by
  have hlistens : ∀ fd, Listening s'.trace fd ↔ fd = s.listenFd := by
    intro fd
    rw [ht, listening_snoc]
    simp [hidle, eq_comm]
  refine ⟨⟨?_, ?_, ?_⟩, by simp [hrun, hf, hfd], fun _ => (hlistens _).mpr hf⟩
  · rw [ht]
    refine hs.secure.snoc fun fd hl => ?_
    rw [← ht, hlistens] at hl
    rw [hl]
    refine ⟨path, ?_, ?_⟩
    · rw [← hb]
      simp [boundTo]
    · rw [← hm]
      simp [modeAt]
  · rw [ht, descriptors_snoc, hf]
    simpa [Syscall.descriptor] using hs.owned
  · intro fd hl
    rw [hf]
    exact ⟨hfd, (hlistens fd).mp hl⟩

/-- What a start comes to. -/
inductive Starts (nodes : String → Option ℕ) (umasked : ℕ) (endpoint : String) (a : SystemAnswers) :
    Status × UdsIpcServer → Prop where
  | noSocket {r : Status × UdsIpcServer} (hsocket : a.socket < 0) (hres : r.1 ≠ .success)
    (hset : Settled nodes umasked r.2) (hrun : r.2.running = false) :
    Starts nodes umasked endpoint a r
  | failed {status : Status} {s : UdsIpcServer} (hsocket : 0 ≤ a.socket) (hres : status ≠ .success)
    (hcalls : ¬ (endpoint.utf8ByteSize < sunPathSize ∧ a.bind ∧ a.chmod ∧ a.listen))
    (hheld : Held nodes umasked s) : Starts nodes umasked endpoint a (status, s.stop a.unlink)
  | started {s : UdsIpcServer} (hsocket : 0 ≤ a.socket)
    (hcalls : endpoint.utf8ByteSize < sunPathSize ∧ a.bind ∧ a.chmod ∧ a.listen)
    (hset : Settled nodes umasked s) (hrun : s.running = true) :
    Starts nodes umasked endpoint a (.success, s)

/-- The node is made and given to its owner alone before anybody can connect. -/
theorem starts_bringUp (hheld : Held nodes umasked s) (hidle : ∀ fd, ¬ Listening s.trace fd)
    (hfd : 0 ≤ s.listenFd) (hsocket : 0 ≤ a.socket) :
    Starts nodes umasked s.endpoint a (s.bringUp a) := by
  simp only [bringUp]
  by_cases hpath : sunPathSize ≤ s.endpoint.utf8ByteSize
  · rw [if_pos hpath]
    exact .failed hsocket (by simp [Status.error, Status.success]) (by omega) hheld
  rw [if_neg hpath]
  cases hbind : a.bind
  · exact .failed hsocket (by simp [Status.error, Status.success]) (by simp [hbind]) hheld
  obtain ⟨hheld, hidle⟩ := hheld.snoc_idle (c := .bind s.listenFd s.endpoint) hidle (by simp) rfl
  cases hchmod : a.chmod
  · exact .failed hsocket (by simp [Status.error, Status.success]) (by simp [hchmod]) hheld
  obtain ⟨hheld, hidle⟩ := hheld.snoc_idle (c := .chmod s.endpoint ownerOnly) hidle (by simp) rfl
  cases hlisten : a.listen
  · exact .failed hsocket (by simp [Status.error, Status.success]) (by simp [hlisten]) hheld
  refine .started hsocket ⟨not_le.mp hpath, hbind, hchmod, hlisten⟩ ?_ rfl
  have hb : boundTo (s.trace ++ [.bind s.listenFd s.endpoint] ++ [.chmod s.endpoint ownerOnly])
      s.listenFd = some s.endpoint := by
    simp only [boundTo, latest_snoc]
    simp
  have hm : modeAt nodes umasked
      (s.trace ++ [.bind s.listenFd s.endpoint] ++ [.chmod s.endpoint ownerOnly]) s.endpoint =
        some ownerOnly := by
    simp only [modeAt, latest_snoc]
    simp
  exact hheld.listen hidle hfd hb hm rfl rfl rfl

theorem starts (hs : Settled nodes umasked s) (hl : s.Legal (.start endpoint config handler a)) :
    Starts nodes umasked endpoint a (s.start endpoint config handler a) := by
  obtain ⟨hrun, hfresh⟩ := hl
  simp only [start]
  by_cases hsocket : a.socket < 0
  · rw [if_pos hsocket]
    refine .noSocket hsocket (by simp [Status.error, Status.success]) ?_ hrun
    refine ⟨⟨hs.secure, ?_, fun fd hl => absurd hl (hs.idle hrun fd)⟩, ?_, ?_⟩
    · simpa only [if_neg (not_le.mpr hsocket)] using hs.owned_none hrun
    · simp [hrun, hsocket]
    · simp [hrun]
  rw [if_neg hsocket]
  rw [not_lt] at hsocket
  obtain ⟨hheld, hidle⟩ := hs.acquire hrun hsocket (hfresh hsocket)
    ({ s with config, handler, endpoint, listenFd := a.socket }.emit (.socket a.socket)) rfl rfl
  obtain ⟨hheld, hidle⟩ := hheld.unlink hidle a.unlinkStale
  have hstarts := starts_bringUp hheld hidle (by simpa using hsocket) hsocket
  rwa [endpoint_unlink] at hstarts

/-- A connection comes and goes without a trace. -/
theorem Settled.serve (hs : Settled nodes umasked s) (hrun : s.running = true)
    (hfresh : ¬ Descriptors.IsOpen (descriptors s.trace) fd) :
    Settled nodes umasked (s.serve fd) := by
  have hlistens : ∀ fd', Listening (s.serve fd).trace fd' ↔ Listening s.trace fd' := by
    intro fd'
    simp only [UdsIpcServer.serve, trace_emit, listening_snoc]
    simp
  refine ⟨⟨?_, ?_, ?_⟩, hs.running_iff, fun _ => (hlistens _).mpr (hs.listening hrun)⟩
  · have haccept := hs.secure.snoc (hs.secure.hardened.snoc (c := .accept fd) (.inr (.inl rfl)))
    exact haccept.snoc (haccept.hardened.snoc (c := .close fd) (.inr (.inr rfl)))
  · simp only [UdsIpcServer.serve, trace_emit, descriptors_snoc]
    exact hs.owned.borrow hfresh
  · intro fd' hl
    exact hs.listens fd' ((hlistens fd').mp hl)

theorem settled_step {op : Op} (hs : Settled nodes umasked s) (hl : s.Legal op) :
    Settled nodes umasked (s.step op).2 := by
  cases op with
  | start endpoint config handler a =>
    have hstarts := starts hs hl
    simp only [step]
    generalize s.start endpoint config handler a = r at hstarts ⊢
    cases hstarts with
    | noSocket _ _ hset _ => exact hset
    | failed _ _ _ hheld => exact (hheld.stop a.unlink).1
    | started _ _ hset _ => exact hset
  | connection fd =>
    simp only [step]
    split
    · rename_i hrun
      exact hs.serve hrun hl
    · exact hs
  | stop unlinked => exact (hs.toHeld.stop unlinked).1

theorem settled_init : Settled nodes umasked {} where
  secure t ht := by
    obtain rfl := List.prefix_nil.mp ht
    exact fun fd hl => absurd hl since_nil
  owned := .nil
  listens fd hl := absurd hl since_nil
  running_iff := by decide
  listening hrun := by cases hrun

theorem settled_run {h : List (Call UdsIpcServer Op (Option Status))} (hr : Run step {} h s)
    (hl : ∀ c ∈ h, c.pre.Legal c.op) : Settled nodes umasked s := by
  refine hr.invariant_of_along (I := fun _ s => Settled nodes umasked s)
    (Q := fun _ c => c.pre.Legal c.op) settled_init ?_ (along_forall.mpr hl)
  intro h s op hr hs hl
  exact settled_step hs hl

theorem Settled.owned_running (hs : Settled nodes umasked s) :
    Descriptors.Owned (descriptors s.trace) fun _ : Unit =>
      if s.running then some s.listenFd else none := by
  simpa only [hs.running_iff] using hs.owned

theorem Settled.listening_iff (hs : Settled nodes umasked s) (fd : ℤ) :
    Listening s.trace fd ↔ s.running = true ∧ fd = s.listenFd := by
  constructor
  · intro hl
    obtain ⟨hfd, heq⟩ := hs.listens fd hl
    exact ⟨hs.running_iff.mpr hfd, heq⟩
  · rintro ⟨hrun, rfl⟩
    exact hs.listening hrun

theorem guarded (nodes : String → Option ℕ) (umasked : ℕ)
    {h : List (Call UdsIpcServer Op (Option Status))} {s : UdsIpcServer} (hr : Run step {} h s)
    (hl : ∀ c ∈ h, c.pre.Legal c.op) : Guarded nodes umasked h s := by
  have hstarts : ∀ c ∈ h, ∀ endpoint config handler a, c.op = .start endpoint config handler a →
      ∃ r, c.res = some r.1 ∧ c.post = r.2 ∧ Starts nodes umasked endpoint a r := by
    intro c hc endpoint config handler a hop
    obtain ⟨before, after, rfl⟩ := List.append_of_mem hc
    obtain ⟨hpre, hcall, -⟩ := hr.split
    have hset : Settled nodes umasked c.pre := settled_run hpre fun d hd => hl d (by simp [hd])
    have hlegal := hl c hc
    rw [hop] at hcall hlegal
    refine ⟨c.pre.start endpoint config handler a, ?_, ?_, starts hset hlegal⟩
    · rw [hcall]
      rfl
    · rw [hcall]
      rfl
  have hset : Settled nodes umasked s := settled_run hr hl
  refine ⟨hset.secure, hset.owned_running, hset.listening_iff, ?_, ?_⟩
  · intro c hc endpoint config handler a hop
    obtain ⟨r, hres, hpost, hr⟩ := hstarts c hc endpoint config handler a hop
    rw [hres, hpost]
    cases hr with
    | noSocket hsocket hne _ hrun => simp [hrun, hne, hsocket]
    | failed hsocket hne hcalls hheld => simp [(hheld.stop a.unlink).2, hne, hcalls]
    | started hsocket hcalls _ hrun => simp [hrun, hsocket, hcalls]
  · rintro c hc (hop | ⟨endpoint, config, handler, a, hop, hsocket, hne, hunlink⟩) hname
    · have hpost : c.post = c.pre.stop true := by
        rw [hr.call_of_mem hc, call_post, hop]
        rfl
      rw [hpost] at hname ⊢
      exact modeAt_stop _ hname
    · obtain ⟨r, hres, hpost, hr⟩ := hstarts c hc endpoint config handler a hop
      rw [hres] at hne
      rw [hpost] at hname ⊢
      cases hr with
      | noSocket hsocket' _ _ _ => omega
      | failed _ _ _ _ =>
        rw [hunlink] at hname ⊢
        exact modeAt_stop _ hname
      | started _ _ _ _ => exact absurd rfl hne

/-- A start in whose way a node stays that is somebody else's, then one that can listen, a
connection and a stop. -/
theorem guarded_restarted : ∃ h s, h.length = 4 ∧ Guarded (fun _ => some 0o777) 0o755 h s := by
  let ops : List Op := [.start "/tmp/redesk-service.sock" {} none
      { socket := 3, unlinkStale := false, bind := false, unlink := false },
    .start "/tmp/redesk-service.sock" {} none { socket := 3 }, .connection 4, .stop true]
  refine ⟨calls step {} ops, final step {} ops, rfl, guarded _ _ (run_calls _ _) ?_⟩
  intro c hc
  simp only [ops, calls, List.mem_cons, List.not_mem_nil, or_false] at hc
  rcases hc with rfl | rfl | rfl | rfl
  · exact ⟨rfl, fun _ => Descriptors.not_isOpen_nil⟩
  · refine ⟨rfl, fun _ => ?_⟩
    change ¬ Descriptors.IsOpen ([] ++ [.opened (3 : ℤ)] ++ [.closed 3]) 3
    rw [Descriptors.isOpen_closed]
    simp
  · change ¬ Descriptors.IsOpen ([] ++ [.opened (3 : ℤ)] ++ [.closed 3] ++ [.opened 3]) 4
    simp only [Descriptors.isOpen_opened, Descriptors.isOpen_closed]
    simp
  · trivial

end UdsIpcServer
end Redesk.Service
