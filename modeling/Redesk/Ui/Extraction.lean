import Redesk.Ui.Authentication

/-! The messages that the client takes out of one connection: those of the whole stream, however it
arrives. -/
namespace Redesk.Ui.ServiceClient
open Machine

variable {c s : ServiceClient} {a b : Bytes} {h : List Call} {d : Call} {e : Event}
  {x : UInt16 × Bytes} {rest : Bytes}

/-- The bytes that a call brings. -/
def delivered (d : Call) : Bytes :=
  match d.op with
  | .readyRead bytes => bytes
  | _ => []

def stream (h : List Call) : Bytes := h.flatMap delivered

def message : Signal → Option (UInt16 × Bytes)
  | .messageReceived opcode payload => some (opcode, payload)
  | _ => none

def error : Signal → Option String
  | .errorOccurred reason => some reason
  | _ => none

/-- The messages that the calls emit, in their order. -/
def messages (h : List Call) : List (UInt16 × Bytes) :=
  h.flatMap fun d => d.res.filterMap fun em => message em.signal

/-- The errors that a call reports about what it has read. -/
def readErrors (d : Call) : List String :=
  match d.op with
  | .readyRead _ => d.res.filterMap fun em => error em.signal
  | _ => []

/-- A frame as it stands in the stream. -/
def wire (m : UInt16 × Bytes) : Bytes :=
  (Endian.encode kLenBytes (kOpBytes + m.2.length)).reverse ++
    (Endian.encode kOpBytes m.1.toNat).reverse ++ m.2

/-- A beginning of a frame of a length within bounds, or of its length. -/
def Incomplete (b : Bytes) : Prop :=
  b.length < kLenBytes ∨
    kOpBytes ≤ frameLen b ∧ frameLen b ≤ kMaxFrameBytes ∧ b.length < kLenBytes + frameLen b

/-- The next frame has a length that is out of bounds. -/
def OutOfBounds (b : Bytes) : Prop :=
  kLenBytes ≤ b.length ∧ (frameLen b < kOpBytes ∨ frameLen b > kMaxFrameBytes)

/-- The call goes on with the connection: it opens no new one, and brings no bytes once the client
has disconnected. -/
def Continues (a : List Call) (d : Call) : Prop :=
  (∀ authToken, d.op = .connectToService authToken →
    d.pre.state = .connecting ∨ d.pre.state = .authenticating ∨ d.pre.state = .ready) ∧
  ∀ bytes, d.op = .readyRead bytes → ∀ e ∈ a, e.post.state ≠ .disconnected

/-- The last bytes were read by a call that reported a length out of bounds, disconnected the client
and left its buffer empty. -/
def Dropped (h : List Call) : Prop :=
  ∃ a d b, h = a ++ d :: b ∧ readErrors d = ["IPC frame size out of bounds"] ∧
    d.post.state = .disconnected ∧ d.post.rxBuffer = [] ∧ ∀ e ∈ b, ∀ bytes, e.op ≠ .readyRead bytes

/-- The messages are the frames of the stream, up to its end or to a length out of bounds. -/
structure Extracted (h : List Call) (s : ServiceClient) : Prop where
  cut : ∃ rest, stream h = (messages h).flatMap wire ++ rest ∧
    (∀ m ∈ messages h, kOpBytes + m.2.length ≤ kMaxFrameBytes) ∧
      (Incomplete rest ∧ s.rxBuffer = rest ∧ h.flatMap readErrors = [] ∨
        OutOfBounds rest ∧ s.rxBuffer = [] ∧
          h.flatMap readErrors = ["IPC frame size out of bounds"] ∧ Dropped h)
  bounded : ∀ d ∈ h, d.post.rxBuffer.length < 1048580

theorem incomplete_of_cut (hc : cutFrame b = .more) : Incomplete b := by
  unfold cutFrame at hc
  split at hc
  · exact .inl ‹_›
  split at hc
  · cases hc
  split at hc
  · exact .inr ⟨by omega, by omega, ‹_›⟩
  · cases hc

theorem Incomplete.length_lt (hi : Incomplete b) : b.length < 1048580 := by
  rcases hi with hlen | ⟨-, hmost, hlen⟩
  · exact hlen.trans (by decide)
  · calc b.length < kLenBytes + frameLen b := hlen
      _ ≤ kLenBytes + kMaxFrameBytes := Nat.add_le_add_left hmost _

/-- A frame that is cut off stood in the buffer as it is on the wire, and within bounds. -/
theorem eq_wire_append (hc : cutFrame b = .item x rest) :
    b = wire x ++ rest ∧ kOpBytes + x.2.length ≤ kMaxFrameBytes := by
  obtain ⟨⟨hlen, hleast, hmost, hwhole⟩, rfl, rfl⟩ := cutFrame_eq_item hc
  have hpayload : ((b.drop (kLenBytes + kOpBytes)).take (frameLen b - kOpBytes)).length =
      frameLen b - kOpBytes := by
    rw [List.length_take, List.length_drop]
    omega
  have hheader : (Endian.encode kLenBytes (frameLen b)).reverse = b.take kLenBytes := by
    have henc := encode_qFromBigEndian (b.take kLenBytes)
    rwa [List.length_take, Nat.min_eq_left hlen] at henc
  have hopcode := opcode_bytes (b := (b.drop kLenBytes).take kOpBytes) (by
    rw [List.length_take, List.length_drop]
    omega)
  constructor
  · rw [wire, hpayload, Nat.add_sub_cancel' hleast, hheader, hopcode, ← List.drop_drop,
      ← List.drop_drop]
    have hrest : (b.drop kLenBytes).drop (frameLen b) =
        ((b.drop kLenBytes).drop kOpBytes).drop (frameLen b - kOpBytes) := by
      simp only [List.drop_drop]
      congr 1
      omega
    simp only [hrest, List.append_assoc, List.take_append_drop]
  · rw [hpayload]
    omega

/-- What is drained from a stream are its frames, all of them within bounds. -/
theorem length_of_mem_drain (hx : x ∈ (frames.drain b).1) :
    kOpBytes + x.2.length ≤ kMaxFrameBytes := by
  induction b using Buffer.Reader.drain.induct (r := frames) with
  | case1 b hc =>
    rw [Buffer.Reader.drain_more hc] at hx
    cases hx
  | case2 b hc =>
    rw [Buffer.Reader.drain_bad hc] at hx
    cases hx
  | case3 b y rest hc _ ih =>
    rw [Buffer.Reader.drain_item hc] at hx
    rcases List.mem_cons.mp hx with rfl | hx
    · exact (eq_wire_append hc).2
    · exact ih hx

theorem filterMap_message_received (t : State) (ms : List (UInt16 × Bytes)) :
    (received t ms).filterMap (fun em => message em.signal) = ms := by
  induction ms with
  | nil => rfl
  | cons m ms ih => simp_all [received, message]

theorem filterMap_error_received (t : State) (ms : List (UInt16 × Bytes)) :
    (received t ms).filterMap (fun em => error em.signal) = [] := by
  simp [received, error]

theorem rejectFrame_cases (c : ServiceClient) :
    (c.rejectFrame.1.filterMap fun em => message em.signal) = [] ∧
      (c.rejectFrame.1.filterMap fun em => error em.signal) = ["IPC frame size out of bounds"] ∧
      c.rejectFrame.2.state = .disconnected ∧ c.rejectFrame.2.rxBuffer = [] := by
  by_cases hs : c.state = .disconnected <;>
    simp [rejectFrame, disconnectFromService, setState, hs, message, error]

/-- A call that reads nothing emits no message and leaves the buffer, unless it opens a
connection. -/
theorem step_of_not_read (he : ∀ bytes, e ≠ .readyRead bytes)
    (hc : ∀ authToken, e = .connectToService authToken →
      c.state = .connecting ∨ c.state = .authenticating ∨ c.state = .ready) :
    ((step c e).1.filterMap fun em => message em.signal) = [] ∧
      (step c e).2.rxBuffer = c.rxBuffer ∧ delivered (call step c e) = [] ∧
        readErrors (call step c e) = [] := by
  have hnone : ((step c e).1.filterMap fun em => message em.signal) = [] := by
    rw [List.filterMap_eq_nil_iff]
    intro em hem
    cases hm : em.signal with
    | messageReceived opcode payload =>
      obtain ⟨bytes, hread⟩ := readyRead_of_message hem hm
      exact absurd hread (he bytes)
    | stateChanged state => rfl
    | errorOccurred reason => rfl
  have hset (c : ServiceClient) (t : State) : (c.setState t).2.rxBuffer = c.rxBuffer := by
    unfold setState
    split <;> rfl
  refine ⟨hnone, ?_⟩
  cases e with
  | readyRead bytes => exact absurd rfl (he bytes)
  | connectToService authToken =>
    have hrefused : step c (.connectToService authToken) = ([], c) := if_pos (hc _ rfl)
    exact ⟨by rw [hrefused], rfl, rfl⟩
  | disconnectFromService => exact ⟨hset c _, rfl, rfl⟩
  | disconnected => exact ⟨hset c _, rfl, rfl⟩
  | errorOccurred reason => exact ⟨hset c _, rfl, rfl⟩
  | connected =>
    refine ⟨?_, rfl, rfl⟩
    simp only [step, onConnected, beginAuth]
    split
    · exact hset c _
    · exact (hset _ _).trans (hset c _)

/-- What the client has made of the stream so far. -/
inductive Tracked (h : List Call) (c : ServiceClient) : Prop where
  | open (hdrain : frames.drain (stream h) = (messages h, some c.rxBuffer))
      (herrors : h.flatMap readErrors = [])
  | dropped (hdrain : frames.drain (stream h) = (messages h, none)) (hbuf : c.rxBuffer = [])
      (herrors : h.flatMap readErrors = ["IPC frame size out of bounds"]) (hdropped : Dropped h)

theorem stream_snoc : stream (h ++ [d]) = stream h ++ delivered d := by
  simp [stream]

theorem messages_snoc :
    messages (h ++ [d]) = messages h ++ d.res.filterMap fun em => message em.signal := by
  simp [messages]

/-- A call that reads while the connection is open drains what has come. -/
theorem tracked_read (hdrain : frames.drain (stream h) = (messages h, some c.rxBuffer))
    (herrors : h.flatMap readErrors = []) (bytes : Bytes) :
    Tracked (h ++ [call step c (.readyRead bytes)]) (step c (.readyRead bytes)).2 := by
  have hdelivered : delivered (call step c (.readyRead bytes)) = bytes := rfl
  have hstep : step c (.readyRead bytes) =
      drainFrames { c with rxBuffer := c.rxBuffer ++ bytes } := rfl
  have hfed := Buffer.Reader.drain_append (r := frames) (b := stream h) bytes
  simp only [hdrain] at hfed
  rw [drainFrames_eq, rejectFrame_rxBuffer] at hstep
  obtain ⟨hmessages, hreported, hstate, hbuf⟩ := rejectFrame_cases c
  cases hd : frames.drain (c.rxBuffer ++ bytes) with
  | mk ms left =>
    simp only [hd] at hstep hfed
    cases left with
    | some left =>
      refine .open ?_ ?_
      · rw [stream_snoc, messages_snoc, hdelivered, hfed, call_res, hstep,
          filterMap_message_received]
      · simp [herrors, readErrors, hstep, filterMap_error_received]
    | none =>
      have hlast : readErrors (call step c (.readyRead bytes)) =
          ["IPC frame size out of bounds"] := by
        simp [readErrors, hstep, filterMap_error_received, hreported]
      refine .dropped ?_ ?_ ?_ ⟨h, _, [], rfl, hlast, ?_, ?_, by simp⟩
      · rw [stream_snoc, messages_snoc, hdelivered, hfed, call_res, hstep,
          List.filterMap_append, filterMap_message_received, hmessages, List.append_nil]
      · rw [hstep]
        exact hbuf
      · simp [herrors, hlast]
      · rw [call_post, hstep]
        exact hstate
      · rw [call_post, hstep]
        exact hbuf

theorem tracked_step (ht : Tracked h c) (hq : Continues h (call step c e)) :
    Tracked (h ++ [call step c e]) (step c e).2 := by
  obtain ⟨hconnect, hread⟩ := hq
  by_cases he : ∃ bytes, e = .readyRead bytes
  · obtain ⟨bytes, rfl⟩ := he
    cases ht with
    | «open» hdrain herrors => exact tracked_read hdrain herrors bytes
    | dropped _ _ _ hdropped =>
      -- the client has disconnected, so no bytes come
      obtain ⟨a, d, b, rfl, -, hstate, -, -⟩ := hdropped
      exact absurd hstate (hread bytes rfl d (by simp))
  · have he : ∀ bytes, e ≠ .readyRead bytes := fun bytes h => he ⟨bytes, h⟩
    obtain ⟨hmessages, hbuf, hdelivered, hnone⟩ := step_of_not_read (c := c) he hconnect
    have hstream : stream (h ++ [call step c e]) = stream h := by
      rw [stream_snoc, hdelivered, List.append_nil]
    have hsame : messages (h ++ [call step c e]) = messages h := by
      rw [messages_snoc, call_res, hmessages, List.append_nil]
    have herr : (h ++ [call step c e]).flatMap readErrors = h.flatMap readErrors := by
      simp [hnone]
    cases ht with
    | «open» hdrain herrors =>
      exact .open (by rw [hstream, hsame, hbuf, hdrain]) (herr.trans herrors)
    | dropped hdrain hempty herrors hdropped =>
      obtain ⟨a, d, b, rfl, hd, hstate, hdbuf, hb⟩ := hdropped
      refine .dropped (by rw [hstream, hsame, hdrain]) (hbuf.trans hempty) (herr.trans herrors)
        ⟨a, d, b ++ [call step c e], by simp, hd, hstate, hdbuf, fun f hf => ?_⟩
      rcases List.mem_append.mp hf with hf | hf
      · exact hb f hf
      · rw [List.mem_singleton.mp hf]
        exact he

theorem tracked_connectToService (authToken : Bytes)
    (hc : c.state = .disconnected ∨ c.state = .error) :
    Tracked [] (c.connectToService authToken).2 := by
  have hbuf : (c.connectToService authToken).2.rxBuffer = [] := by
    rcases hc with hc | hc <;> simp [connectToService, setState, hc]
  refine .open ?_ rfl
  rw [hbuf]
  exact Buffer.Reader.drain_more (r := frames) rfl

theorem tracked_run {c₀ : ServiceClient} (h0 : Tracked [] c₀) (hr : Run c₀ h s)
    (hq : Along Continues h) : Tracked h s :=
  hr.invariant_of_along h0 (fun _ _ _ _ => tracked_step) hq

theorem Tracked.length_rxBuffer (ht : Tracked h s) : s.rxBuffer.length < 1048580 := by
  cases ht with
  | «open» hdrain =>
    have hcut := Buffer.Reader.cut_left (r := frames) (congrArg Prod.snd hdrain)
    exact (incomplete_of_cut hcut).length_lt
  | dropped _ hbuf =>
    rw [hbuf]
    decide

/-- From when the client begins to connect, for as long as the connection lasts, the messages are
the frames of the stream, the buffer is what follows them, and a length out of bounds ends it. -/
theorem extracted (authToken : Bytes) (hc : c.state = .disconnected ∨ c.state = .error)
    (hr : Run (c.connectToService authToken).2 h s) (hq : Along Continues h) :
    Extracted h s := by
  have h0 := tracked_connectToService authToken hc
  constructor
  · obtain ⟨rest, hstream, hrest⟩ := Buffer.Reader.eq_flatMap_append (r := frames) (f := wire)
      (fun hcut => (eq_wire_append hcut).1) (stream h)
    have hmost (m : UInt16 × Bytes) (hm : m ∈ (frames.drain (stream h)).1) :
        kOpBytes + m.2.length ≤ kMaxFrameBytes := length_of_mem_drain hm
    cases tracked_run h0 hr hq with
    | «open» hdrain herrors =>
      rw [hdrain] at hstream hrest hmost
      obtain ⟨hleft, hcut⟩ := hrest.resolve_right (by simp)
      exact ⟨rest, hstream, hmost,
        .inl ⟨incomplete_of_cut hcut, Option.some.inj hleft, herrors⟩⟩
    | dropped hdrain hbuf herrors hdropped =>
      rw [hdrain] at hstream hrest hmost
      obtain ⟨-, hcut⟩ := hrest.resolve_left (by simp)
      exact ⟨rest, hstream, hmost, .inr ⟨cutFrame_eq_bad hcut, hbuf, herrors, hdropped⟩⟩
  · intro d hd
    obtain ⟨a, b, rfl⟩ := List.append_of_mem hd
    obtain ⟨hra, hcall, -⟩ := hr.split
    have ha : Tracked a d.pre := by
      refine tracked_run h0 hra ?_
      rintro a' e b' rfl
      exact hq a' e (b' ++ d :: b) (by simp)
    have hd := hq a d b rfl
    rw [hcall] at hd ⊢
    exact (tracked_step ha hd).length_rxBuffer

theorem extracted_two_frames : Extracted
    (calls step (connectToService {} [1]).2
      [.connected, .readyRead [0, 0, 0], .readyRead [2, 0, 7, 0, 0, 0, 1]])
    (final step (connectToService {} [1]).2
      [.connected, .readyRead [0, 0, 0], .readyRead [2, 0, 7, 0, 0, 0, 1]]) := by
  refine extracted [1] (.inl rfl) (run_calls _ _) ?_
  simp only [calls, along_cons, Continues]
  refine ⟨⟨?_, ?_⟩, ⟨?_, ?_⟩, ⟨?_, ?_⟩, along_nil⟩ <;> simp <;> decide +kernel

end Redesk.Ui.ServiceClient
