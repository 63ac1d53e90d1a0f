import Redesk.Common.Types
import Redesk.Machine.Buffer
import Redesk.Machine.Endian
import Redesk.Machine.Runs

/-! The IPC client of the user interface: the states of its connection, and the frames that it takes
out of what it has received. What its signals are connected to does not call the client again. -/
namespace Redesk.Ui

/-- A number from its bytes, the highest first. -/
def qFromBigEndian (b : Bytes) : ℕ := Endian.decode b.reverse

theorem qFromBigEndian_lt (b : Bytes) : qFromBigEndian b < 256 ^ b.length := by
  simpa [qFromBigEndian] using Endian.decode_lt b.reverse

theorem encode_qFromBigEndian (b : Bytes) :
    (Endian.encode b.length (qFromBigEndian b)).reverse = b := by
  have henc := Endian.encode_decode b.reverse
  rw [List.length_reverse] at henc
  rw [qFromBigEndian, henc, List.reverse_reverse]

namespace ServiceClient

inductive State where
  | disconnected | connecting | authenticating | ready | error
  deriving DecidableEq, Repr

inductive Signal where
  | stateChanged (state : State)
  | messageReceived (opcode : UInt16) (payload : Bytes)
  | errorOccurred (reason : String)
  deriving DecidableEq, Repr

/-- A signal, and the state of the client while it is emitted. -/
structure Emission where
  signal : Signal
  state : State
  deriving DecidableEq, Repr

def kMaxFrameBytes : ℕ := 2 ^ 20

def kLenBytes : ℕ := 4

def kOpBytes : ℕ := 2

end ServiceClient

structure ServiceClient where
  rxBuffer : Bytes := []
  authToken : Bytes := []
  state : ServiceClient.State := .disconnected
  deriving DecidableEq, Repr

namespace ServiceClient

def setState (c : ServiceClient) (s : State) : List Emission × ServiceClient :=
  if c.state = s then ([], c)
  else ([{ signal := .stateChanged s, state := s }], { c with state := s })

def connectToService (c : ServiceClient) (authToken : Bytes) : List Emission × ServiceClient :=
  if c.state = .connecting ∨ c.state = .authenticating ∨ c.state = .ready then ([], c)
  else setState { c with authToken := authToken, rxBuffer := [] } .connecting

def disconnectFromService (c : ServiceClient) : List Emission × ServiceClient :=
  c.setState .disconnected

/-- Without a token the client stays where it is. -/
def beginAuth (c : ServiceClient) : List Emission × ServiceClient :=
  if c.authToken.isEmpty then ([], c) else c.setState .ready

def onConnected (c : ServiceClient) : List Emission × ServiceClient :=
  let (e, c) := c.setState .authenticating
  let (e', c) := c.beginAuth
  (e ++ e', c)

def onDisconnected (c : ServiceClient) : List Emission × ServiceClient := c.setState .disconnected

def onSocketError (c : ServiceClient) (reason : String) : List Emission × ServiceClient :=
  let error : Emission := { signal := .errorOccurred reason, state := c.state }
  let (e, c) := c.setState .error
  (error :: e, c)

/-- The length that a buffer starts with. -/
def frameLen (b : Bytes) : ℕ := qFromBigEndian (b.take kLenBytes)

/-- Emits the complete frames of the buffer: a length, which covers the rest, an opcode and a
payload. A length out of bounds drops the connection. -/
def drainFrames (c : ServiceClient) : List Emission × ServiceClient :=
  if c.rxBuffer.length < kLenBytes then ([], c)
  else if frameLen c.rxBuffer < kOpBytes ∨ frameLen c.rxBuffer > kMaxFrameBytes then
    let error : Emission :=
      { signal := .errorOccurred "IPC frame size out of bounds", state := c.state }
    let (e, c) := c.disconnectFromService
    (error :: e, { c with rxBuffer := [] })
  else if c.rxBuffer.length < kLenBytes + frameLen c.rxBuffer then ([], c)
  else
    let opcode := UInt16.ofNat (qFromBigEndian ((c.rxBuffer.drop kLenBytes).take kOpBytes))
    let payload :=
      (c.rxBuffer.drop (kLenBytes + kOpBytes)).take (frameLen c.rxBuffer - kOpBytes)
    let message : Emission := { signal := .messageReceived opcode payload, state := c.state }
    let (e, c) :=
      drainFrames { c with rxBuffer := c.rxBuffer.drop (kLenBytes + frameLen c.rxBuffer) }
    (message :: e, c)
termination_by c.rxBuffer.length
decreasing_by
  simp only [List.length_drop, kLenBytes] at *
  omega

def onReadyRead (c : ServiceClient) (bytes : Bytes) : List Emission × ServiceClient :=
  drainFrames { c with rxBuffer := c.rxBuffer ++ bytes }

/-- What the interface asks of the client, and what its socket tells it. -/
inductive Event where
  | connectToService (authToken : Bytes)
  | disconnectFromService
  | connected
  | disconnected
  | errorOccurred (reason : String)
  | readyRead (bytes : Bytes)
  deriving DecidableEq, Repr

def step (c : ServiceClient) : Event → List Emission × ServiceClient
  | .connectToService authToken => c.connectToService authToken
  | .disconnectFromService => c.disconnectFromService
  | .connected => c.onConnected
  | .disconnected => c.onDisconnected
  | .errorOccurred reason => c.onSocketError reason
  | .readyRead bytes => c.onReadyRead bytes

abbrev Call := Machine.Call ServiceClient Event (List Emission)

abbrev Run : ServiceClient → List Call → ServiceClient → Prop := Machine.Run step

variable {c : ServiceClient} {b : Bytes} {bytes : Bytes}

/-- What stands at the head of the buffer. -/
def cutFrame (b : Bytes) : Buffer.Cut (UInt16 × Bytes) UInt8 :=
  if b.length < kLenBytes then .more
  else if frameLen b < kOpBytes ∨ frameLen b > kMaxFrameBytes then .bad
  else if b.length < kLenBytes + frameLen b then .more
  else .item
    (UInt16.ofNat (qFromBigEndian ((b.drop kLenBytes).take kOpBytes)),
      (b.drop (kLenBytes + kOpBytes)).take (frameLen b - kOpBytes))
    (b.drop (kLenBytes + frameLen b))

/-- The buffer starts with a complete frame whose length is within bounds. -/
structure StartsWithFrame (b : Bytes) : Prop where
  length : kLenBytes ≤ b.length
  least : kOpBytes ≤ frameLen b
  most : frameLen b ≤ kMaxFrameBytes
  whole : kLenBytes + frameLen b ≤ b.length

theorem cutFrame_of_startsWithFrame (h : StartsWithFrame b) : cutFrame b = .item
    (UInt16.ofNat (qFromBigEndian ((b.drop kLenBytes).take kOpBytes)),
      (b.drop (kLenBytes + kOpBytes)).take (frameLen b - kOpBytes))
    (b.drop (kLenBytes + frameLen b)) := by
  obtain ⟨hlen, hleast, hmost, hwhole⟩ := h
  rw [cutFrame, if_neg (by omega), if_neg (by omega), if_neg (by omega)]

theorem cutFrame_eq_item {x : UInt16 × Bytes} {rest : Bytes} (h : cutFrame b = .item x rest) :
    StartsWithFrame b ∧
      x = (UInt16.ofNat (qFromBigEndian ((b.drop kLenBytes).take kOpBytes)),
        (b.drop (kLenBytes + kOpBytes)).take (frameLen b - kOpBytes)) ∧
      rest = b.drop (kLenBytes + frameLen b) := by
  unfold cutFrame at h
  split at h
  · cases h
  split at h
  · cases h
  split at h
  · cases h
  cases h
  exact ⟨⟨by omega, by omega, by omega, by omega⟩, rfl, rfl⟩

theorem cutFrame_eq_bad (h : cutFrame b = .bad) : kLenBytes ≤ b.length ∧
    (frameLen b < kOpBytes ∨ frameLen b > kMaxFrameBytes) := by
  unfold cutFrame at h
  split at h
  · cases h
  split at h
  · rename_i hlen hbounds
    exact ⟨Nat.le_of_not_lt hlen, hbounds⟩
  · split at h <;> cases h

theorem frameLen_append (h : kLenBytes ≤ b.length) : frameLen (b ++ bytes) = frameLen b := by
  rw [frameLen, frameLen, List.take_append_of_le_length h]

/-- A complete frame is the same with more bytes after it. -/
theorem cutFrame_append {x : UInt16 × Bytes} {rest : Bytes} (h : cutFrame b = .item x rest)
    (bytes : Bytes) : cutFrame (b ++ bytes) = .item x (rest ++ bytes) := by
  obtain ⟨hstart, rfl, rfl⟩ := cutFrame_eq_item h
  obtain ⟨hlen, hleast, hmost, hwhole⟩ := hstart
  have hmore : StartsWithFrame (b ++ bytes) := by
    constructor <;> simp only [frameLen_append hlen, List.length_append] <;> omega
  rw [cutFrame_of_startsWithFrame hmore, frameLen_append hlen,
    List.drop_append_of_le_length hlen, List.drop_append_of_le_length (by omega),
    List.drop_append_of_le_length hwhole,
    List.take_append_of_le_length (by rw [List.length_drop]; omega),
    List.take_append_of_le_length (by rw [List.length_drop]; omega)]

theorem cutFrame_append_bad (h : cutFrame b = .bad) (bytes : Bytes) :
    cutFrame (b ++ bytes) = .bad := by
  obtain ⟨hlen, hbounds⟩ := cutFrame_eq_bad h
  have hmore : (b ++ bytes).length = b.length + bytes.length := List.length_append
  rw [cutFrame, frameLen_append hlen, if_neg (by omega), if_pos hbounds]

/-- The two bytes of an opcode are those that it was read from. -/
theorem opcode_bytes (h : b.length = kOpBytes) :
    (Endian.encode kOpBytes (UInt16.ofNat (qFromBigEndian b)).toNat).reverse = b := by
  have hlt : qFromBigEndian b < 2 ^ 16 := by
    have hbound := qFromBigEndian_lt b
    rw [h] at hbound
    exact hbound
  rw [UInt16.toNat_ofNat', Nat.mod_eq_of_lt hlt, ← h, encode_qFromBigEndian]

/-- The frames of the client, as items that are cut off a stream. -/
def frames : Buffer.Reader (UInt16 × Bytes) UInt8 where
  cut := cutFrame
  shorter := by
    intro b x rest h
    obtain ⟨⟨hlen, -, -, -⟩, -, rfl⟩ := cutFrame_eq_item h
    rw [List.length_drop]
    simp only [kLenBytes] at hlen ⊢
    omega
  item_append h bytes := cutFrame_append h bytes
  bad_append h bytes := cutFrame_append_bad h bytes

/-- The emissions for the messages that are drained in a state. -/
def received (s : State) (ms : List (UInt16 × Bytes)) : List Emission :=
  ms.map fun m => { signal := .messageReceived m.1 m.2, state := s }

theorem received_append (s : State) (xs ys : List (UInt16 × Bytes)) :
    received s (xs ++ ys) = received s xs ++ received s ys := List.map_append

/-- What the client does about a length that is out of bounds. -/
def rejectFrame (c : ServiceClient) : List Emission × ServiceClient :=
  ({ signal := .errorOccurred "IPC frame size out of bounds", state := c.state } ::
      c.disconnectFromService.1,
    { c.disconnectFromService.2 with rxBuffer := [] })

/-- Whatever the buffer held is dropped with the connection. -/
theorem rejectFrame_rxBuffer (b : Bytes) :
    rejectFrame { c with rxBuffer := b } = c.rejectFrame := by
  simp only [rejectFrame, disconnectFromService, setState]
  split <;> rfl

/-- Draining emits the frames of the buffer, in their order, and leaves what is incomplete. -/
theorem drainFrames_eq : c.drainFrames =
    match frames.drain c.rxBuffer with
    | (ms, some left) => (received c.state ms, { c with rxBuffer := left })
    | (ms, none) => (received c.state ms ++ c.rejectFrame.1, c.rejectFrame.2) := by
  induction c using drainFrames.induct with
  | case1 c hlen =>
    have hcut : frames.cut c.rxBuffer = .more := if_pos hlen
    rw [drainFrames, if_pos hlen, Buffer.Reader.drain_more hcut]
    rfl
  | case2 c hlen hbounds =>
    have hcut : frames.cut c.rxBuffer = .bad := by
      show cutFrame c.rxBuffer = .bad
      rw [cutFrame, if_neg hlen, if_pos hbounds]
    rw [drainFrames, if_neg hlen, if_pos hbounds, Buffer.Reader.drain_bad hcut]
    rfl
  | case3 c hlen hbounds htotal =>
    have hcut : frames.cut c.rxBuffer = .more := by
      show cutFrame c.rxBuffer = .more
      rw [cutFrame, if_neg hlen, if_neg hbounds, if_pos htotal]
    rw [drainFrames, if_neg hlen, if_neg hbounds, if_pos htotal, Buffer.Reader.drain_more hcut]
    rfl
  | case4 c hlen hbounds htotal _ _ _ ih =>
    have hcut := cutFrame_of_startsWithFrame (b := c.rxBuffer)
      ⟨by omega, by omega, by omega, by omega⟩
    rw [drainFrames, if_neg hlen, if_neg hbounds, if_neg htotal,
      Buffer.Reader.drain_item (r := frames) hcut]
    simp only [ih]
    cases hd : frames.drain (c.rxBuffer.drop (kLenBytes + frameLen c.rxBuffer)) with
    | mk ms left =>
      cases left with
      | none =>
        simp only [rejectFrame_rxBuffer]
        rfl
      | some left => rfl

end ServiceClient

end Redesk.Ui
