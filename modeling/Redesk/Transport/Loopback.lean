import Redesk.Common.Types
import Redesk.Machine.Past

/-! The loopback transport: two ends, each of which hands what it sends to the receive callback of
the other within the call. -/
namespace Redesk.Transport
open Machine

inductive Channel where
  | video | audio | input | control | clipboard | fileTransfer
  deriving DecidableEq, Repr

inductive Reliability where
  | unreliable | reliableOrdered
  deriving DecidableEq, Repr

def reliabilityFor : Channel → Reliability
  | .video | .audio => .unreliable
  | .input | .control | .clipboard | .fileTransfer => .reliableOrdered

inductive TransportState where
  | idle | connecting | connected | failed | closed
  deriving DecidableEq, Repr

def kMaxTransportMessage : ℕ := 65535

/-- One end; of a callback it is kept whether there is one. -/
structure LoopbackTransport where
  receiveCb : Bool := false
  stateCb : Bool := false
  state : TransportState := .idle
  deriving DecidableEq, Repr

namespace LoopbackTransport

/-- The new state, and what the state callback is called with. -/
def setState (t : LoopbackTransport) (s : TransportState) :
    List TransportState × LoopbackTransport :=
  if t.state = s then ([], t) else (if t.stateCb then [s] else [], { t with state := s })

/-- What a call to send returns, and what the receive callback of the peer is called with. -/
def send (t : LoopbackTransport) (peer : Option LoopbackTransport) (channel : Channel)
    (payload : Bytes) : Status × List (Channel × Bytes) :=
  if t.state ≠ .connected then (.error .connectionLost "not connected", [])
  else if payload.length > kMaxTransportMessage then
    (.error .invalidArgument "payload exceeds 65535-byte transport cap", [])
  else if !(peer.any (·.receiveCb)) then
    if reliabilityFor channel = .reliableOrdered then
      (.error .connectionLost "peer has no receiver", [])
    else (.success, [])
  else (.success, [(channel, payload)])

end LoopbackTransport

/-- Two ends that are each other's peer. -/
abbrev LoopbackPair := Side → LoopbackTransport

def createLoopbackPair : LoopbackPair := fun _ => {}

inductive Op where
  | setReceiveCallback (cb : Bool)
  | setStateCallback (cb : Bool)
  | connect
  | send (channel : Channel) (payload : Bytes)
  | close
  deriving DecidableEq, Repr

/-- A call on one of the ends. -/
structure Event where
  side : Side
  op : Op
  deriving DecidableEq, Repr

/-- What a call returns, and the callbacks it makes: the payloads that an end receives on a channel,
and the states that the end of the call is notified of. -/
structure Reply where
  status : Status := .success
  received : List (Side × Channel × Bytes) := []
  notified : List TransportState := []
  deriving DecidableEq, Repr

namespace LoopbackPair

def step (p : LoopbackPair) (e : Event) : Reply × LoopbackPair :=
  let t := p e.side
  match e.op with
  | .setReceiveCallback cb => ({}, Function.update p e.side { t with receiveCb := cb })
  | .setStateCallback cb => ({}, Function.update p e.side { t with stateCb := cb })
  | .connect =>
    let (notified, t) := t.setState .connected
    ({ notified := notified }, Function.update p e.side t)
  | .send channel payload =>
    let (status, received) := t.send (some (p e.side.other)) channel payload
    ({ status := status, received := received.map fun r => (e.side.other, r) }, p)
  | .close =>
    let (notified, t) := t.setState .closed
    ({ notified := notified }, Function.update p e.side t)

abbrev Call := Machine.Call LoopbackPair Event Reply

abbrev Run : LoopbackPair → List Call → LoopbackPair → Prop := Machine.Run step

end LoopbackPair

variable {t peer : LoopbackTransport} {p : LoopbackPair} {e : Event} {x y : Side}
  {channel : Channel} {payload : Bytes} {s : TransportState}

namespace LoopbackTransport

@[simp] theorem setState_state : (t.setState s).2.state = s := by
  unfold setState
  split
  · assumption
  · rfl

/-- With a receiver at the other end, what is sent is delivered or refused. -/
theorem send_of_receiver (hconn : t.state = .connected) (hcb : peer.receiveCb = true) :
    t.send (some peer) channel payload =
      if payload.length > kMaxTransportMessage then
        (.error .invalidArgument "payload exceeds 65535-byte transport cap", [])
      else (.success, [(channel, payload)]) := by
  simp [send, hconn, hcb]

/-- Sending succeeds with a delivery, or on an unreliable channel without one, or fails. -/
theorem send_cases (t : LoopbackTransport) (peer : LoopbackTransport) (channel : Channel)
    (payload : Bytes) :
    (t.send (some peer) channel payload = (.success, [(channel, payload)]) ∧
      t.state = .connected ∧ payload.length ≤ kMaxTransportMessage ∧ peer.receiveCb = true) ∨
    (t.send (some peer) channel payload = (.success, []) ∧
      reliabilityFor channel = .unreliable) ∨
    ((t.send (some peer) channel payload).1.ok = false ∧
      (t.send (some peer) channel payload).2 = []) := by
  unfold send
  split
  · exact .inr (.inr ⟨rfl, rfl⟩)
  rename_i hconn
  split
  · exact .inr (.inr ⟨rfl, rfl⟩)
  rename_i hlen
  split
  · split
    · exact .inr (.inr ⟨rfl, rfl⟩)
    · rename_i hch
      refine .inr (.inl ⟨rfl, ?_⟩)
      cases hr : reliabilityFor channel with
      | unreliable => rfl
      | reliableOrdered => exact absurd hr hch
  · rename_i hcb
    exact .inl ⟨rfl, not_not.mp hconn, Nat.le_of_not_gt hlen, by simpa using hcb⟩

end LoopbackTransport

namespace LoopbackPair

/-- Only a call to send makes an end receive something. -/
theorem received_eq_nil (h : ∀ channel payload, e.op ≠ .send channel payload) :
    (step p e).1.received = [] := by
  unfold step
  cases hop : e.op with
  | send channel payload => exact absurd hop (h channel payload)
  | _ => rfl

end LoopbackPair

end Redesk.Transport
