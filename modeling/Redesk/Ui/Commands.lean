import Redesk.Machine.Past
import Redesk.Ui.ServiceClient

/-! The commands that the client sends: what it writes to its socket, and what must have happened
before that. As with its other calls, none of them is made from inside one of its signals. -/
namespace Redesk.Ui.ServiceClient
open Machine

/-- Whether a command is accepted, and what is written. The socket answers how much of it it took,
or negative one. -/
def sendCommand (c : ServiceClient) (framedCommand : Bytes) (written : ℤ) : Bool × Option Bytes :=
  if c.state ≠ .ready then (false, none)
  -- the length is cut to 32 bits
  else if framedCommand.length % 2 ^ 32 > kMaxFrameBytes then (false, none)
  else (decide (written = framedCommand.length), some framedCommand)

namespace Sender

inductive Op where
  | event (e : Event)
  | sendCommand (framedCommand : Bytes) (written : ℤ)
  deriving DecidableEq, Repr

/-- What a call emits or returns, and what it writes. -/
structure Response where
  emitted : List Emission := []
  accepted : Bool := false
  written : Option Bytes := none
  deriving DecidableEq, Repr

def step (c : ServiceClient) : Op → Response × ServiceClient
  | .event e => ({ emitted := (ServiceClient.step c e).1 }, (ServiceClient.step c e).2)
  | .sendCommand framedCommand written =>
    ({ accepted := (c.sendCommand framedCommand written).1,
       written := (c.sendCommand framedCommand written).2 }, c)

abbrev Call := Machine.Call ServiceClient Op Response

abbrev Run : ServiceClient → List Call → ServiceClient → Prop := Machine.Run step

/-- The token of a request to connect that the client accepts. -/
def tokenOf (d : Call) : Option Bytes :=
  match d.op with
  | .event (.connectToService token) =>
    if d.pre.state = .disconnected ∨ d.pre.state = .error then some token else none
  | _ => none

/-- The socket comes up, and there is a token. -/
def Authenticates (d : Call) : Prop := d.op = .event .connected ∧ d.pre.authToken ≠ []

/-- The connection goes, or is dropped for a length out of bounds. -/
def Breaks (d : Call) : Prop :=
  d.op = .event .disconnectFromService ∨ d.op = .event .disconnected ∨
    (∃ reason, d.op = .event (.errorOccurred reason)) ∨
    ∃ bytes, d.op = .event (.readyRead bytes) ∧
      (frames.drain (d.pre.rxBuffer ++ bytes)).2 = none

def Authenticated (h : List Call) : Prop := Since Authenticates Breaks h

structure Guards (h : List Call) (c : ServiceClient) : Prop where
  ready : c.state = .ready ↔ Authenticated h
  /-- The token is that of the last connection, and cannot be changed under it. -/
  token : c.authToken = (latest tokenOf h).getD []
  /-- Commands are written while the client is authenticated, and no others. -/
  written : Along (fun a d => ∀ framedCommand, d.res.written = some framedCommand ↔
    (∃ n, d.op = .sendCommand framedCommand n) ∧ Authenticated a ∧
      framedCommand.length % 2 ^ 32 ≤ kMaxFrameBytes) h
  /-- A command is accepted if it was written as a whole. -/
  accepted : ∀ d ∈ h, d.res.accepted = true ↔ ∃ framedCommand : Bytes,
    d.op = .sendCommand framedCommand framedCommand.length ∧ d.res.written = some framedCommand

end Sender

variable {c : ServiceClient}

@[simp] theorem state_setState (s : State) : (c.setState s).2.state = s := by
  unfold setState
  split
  · assumption
  · rfl

@[simp] theorem authToken_setState (s : State) : (c.setState s).2.authToken = c.authToken := by
  unfold setState
  split <;> rfl

theorem state_connectToService (token : Bytes) :
    ((c.connectToService token).2.state = .ready ↔ c.state = .ready) ∧
      (c.connectToService token).2.authToken =
        (if c.state = .disconnected ∨ c.state = .error then some token else none).getD
          c.authToken := by
  unfold connectToService
  split
  · rename_i hbusy
    rcases hbusy with hs | hs | hs <;> simp [hs]
  · rename_i hfree
    cases hs : c.state <;> simp_all

theorem state_onConnected : c.onConnected.2.state =
    if c.authToken = [] then .authenticating else .ready := by
  simp only [onConnected, beginAuth, List.isEmpty_iff, authToken_setState]
  split
  · simp
  · simp

theorem authToken_onConnected : c.onConnected.2.authToken = c.authToken := by
  simp only [onConnected, beginAuth]
  split <;> simp

/-- Reading leaves the state, unless a length is out of bounds. -/
theorem state_onReadyRead (bytes : Bytes) :
    (c.onReadyRead bytes).2.state =
        (if (frames.drain (c.rxBuffer ++ bytes)).2 = none then .disconnected else c.state) ∧
      (c.onReadyRead bytes).2.authToken = c.authToken := by
  rw [onReadyRead, drainFrames_eq, rejectFrame_rxBuffer]
  cases hd : frames.drain (c.rxBuffer ++ bytes) with
  | mk ms left => cases left <;> simp [rejectFrame, disconnectFromService]

namespace Sender
variable {h : List Call} {op : Op}

/-- What holds after any calls. -/
structure Settled (h : List Call) (c : ServiceClient) : Prop where
  ready : c.state = .ready ↔ Authenticated h
  token : c.authToken = (latest tokenOf h).getD []
  some : c.state = .ready → c.authToken ≠ []

theorem Settled.snoc {d : Call} {c' : ServiceClient} (hs : Settled h c)
    (hready : c'.state = .ready ↔ Authenticates d ∨ ¬ Breaks d ∧ c.state = .ready)
    (htoken : c'.authToken = (tokenOf d).getD c.authToken)
    (hsome : c'.state = .ready → c'.authToken ≠ []) : Settled (h ++ [d]) c' := by
  refine ⟨?_, ?_, hsome⟩
  · rw [hready, hs.ready]
    exact since_snoc.symm
  · rw [htoken, hs.token, latest_snoc]
    cases tokenOf d <;> rfl

theorem settled_step (hs : Settled h c) (op : Op) :
    Settled (h ++ [call step c op]) (step c op).2 := by
  have hsome := hs.some
  cases op with
  | sendCommand framedCommand n =>
    refine hs.snoc ?_ rfl hsome
    simp [Authenticates, Breaks, step]
  | event e =>
    cases e with
    | connectToService token =>
      obtain ⟨hstate, htoken⟩ := state_connectToService (c := c) token
      refine hs.snoc ?_ htoken ?_
      · refine hstate.trans ?_
        simp [Authenticates, Breaks]
      · intro hr
        have hready := hstate.mp hr
        refine htoken.trans_ne ?_
        simpa [hready] using hsome hready
    | disconnectFromService =>
      refine hs.snoc ?_ ?_ ?_ <;> simp [Authenticates, Breaks, tokenOf, step, ServiceClient.step,
        disconnectFromService]
    | disconnected =>
      refine hs.snoc ?_ ?_ ?_ <;> simp [Authenticates, Breaks, tokenOf, step, ServiceClient.step,
        onDisconnected]
    | errorOccurred reason =>
      refine hs.snoc ?_ ?_ ?_ <;> simp [Authenticates, Breaks, tokenOf, step, ServiceClient.step,
        onSocketError]
    | connected =>
      have hstate := state_onConnected (c := c)
      have htoken := authToken_onConnected (c := c)
      have hpost : (step c (.event .connected)).2.state = .ready ↔ c.authToken ≠ [] := by
        rw [show (step c (.event .connected)).2.state = c.onConnected.2.state from rfl, hstate]
        split <;> simp_all
      refine hs.snoc ?_ htoken ?_
      · rw [hpost]
        constructor
        · exact fun hne => .inl ⟨rfl, hne⟩
        · rintro (⟨-, hne⟩ | ⟨-, hr⟩)
          · exact hne
          · exact hsome hr
      · intro hr
        exact htoken.trans_ne (hpost.mp hr)
    | readyRead bytes =>
      obtain ⟨hstate, htoken⟩ := state_onReadyRead (c := c) bytes
      have hpost : (step c (.event (.readyRead bytes))).2.state = .ready ↔
          (frames.drain (c.rxBuffer ++ bytes)).2 ≠ none ∧ c.state = .ready := by
        rw [show (step c (.event (.readyRead bytes))).2.state = (c.onReadyRead bytes).2.state
          from rfl, hstate]
        split <;> simp_all
      refine hs.snoc ?_ htoken ?_
      · rw [hpost]
        simp [Authenticates, Breaks]
      · intro hr
        exact htoken.trans_ne (hsome (hpost.mp hr).2)

theorem settled_run (hr : Run {} h c) : Settled h c := by
  induction hr with
  | nil => exact ⟨by simp [Authenticated], rfl, fun hr => by cases hr⟩
  | snoc hr op ih => exact settled_step ih op

/-- The three ends of a call to send. -/
theorem sendCommand_cases (c : ServiceClient) (b : Bytes) (n : ℤ) :
    (c.state = .ready ∧ b.length % 2 ^ 32 ≤ kMaxFrameBytes) ∧
        c.sendCommand b n = (decide (n = b.length), some b) ∨
      ¬ (c.state = .ready ∧ b.length % 2 ^ 32 ≤ kMaxFrameBytes) ∧
        c.sendCommand b n = (false, none) := by
  unfold sendCommand
  split
  · rename_i hstate
    exact .inr ⟨fun hr => hstate hr.1, rfl⟩
  · rename_i hstate
    split
    · rename_i hlong
      exact .inr ⟨fun hr => absurd hr.2 (not_le.mpr hlong), rfl⟩
    · rename_i hshort
      exact .inl ⟨⟨not_not.mp hstate, not_lt.mp hshort⟩, rfl⟩

theorem written_iff (c : ServiceClient) (op : Op) (framedCommand : Bytes) :
    (step c op).1.written = some framedCommand ↔
      (∃ n, op = .sendCommand framedCommand n) ∧ c.state = .ready ∧
        framedCommand.length % 2 ^ 32 ≤ kMaxFrameBytes := by
  cases op with
  | event e => simp [step]
  | sendCommand b n =>
    rcases sendCommand_cases c b n with ⟨hr, hsend⟩ | ⟨hr, hsend⟩
    · simp only [step, hsend, Option.some.injEq]
      constructor
      · rintro rfl
        exact ⟨⟨n, rfl⟩, hr⟩
      · rintro ⟨⟨k, hop⟩, -⟩
        cases hop
        rfl
    · simp only [step, hsend, reduceCtorEq, false_iff]
      rintro ⟨⟨k, hop⟩, hr'⟩
      cases hop
      exact hr hr'

theorem accepted_iff (c : ServiceClient) (op : Op) : (step c op).1.accepted = true ↔
    ∃ framedCommand : Bytes, op = .sendCommand framedCommand framedCommand.length ∧
      (step c op).1.written = some framedCommand := by
  cases op with
  | event e => simp [step]
  | sendCommand b n =>
    rcases sendCommand_cases c b n with ⟨-, hsend⟩ | ⟨-, hsend⟩
    · simp only [step, hsend, decide_eq_true_eq, Option.some.injEq]
      constructor
      · rintro rfl
        exact ⟨b, rfl, rfl⟩
      · rintro ⟨b', hop, -⟩
        cases hop
        rfl
    · simp [step, hsend]

theorem guards {h : List Call} {c : ServiceClient} (hr : Run {} h c) : Guards h c where
  ready := (settled_run hr).ready
  token := (settled_run hr).token
  written := by
    rintro a d b rfl framedCommand
    obtain ⟨ha, hd, -⟩ := hr.split
    have hready := (settled_run ha).ready
    rw [hd, call_res, written_iff, hready]
    rfl
  accepted := by
    intro d hd
    rw [hr.call_of_mem hd]
    exact accepted_iff d.pre d.op

/-- A command before the socket is up, one after it, and one after the connection is gone. -/
theorem guards_connected : Guards (calls step {} [.event (.connectToService [7]),
    .sendCommand [1] 1, .event .connected, .sendCommand [1] 1, .event .disconnected,
    .sendCommand [1] 1]) (final step {} [.event (.connectToService [7]), .sendCommand [1] 1,
      .event .connected, .sendCommand [1] 1, .event .disconnected, .sendCommand [1] 1]) :=
  guards (run_calls _ _)

end Sender
end Redesk.Ui.ServiceClient
