import Redesk.Service.Requests
import Redesk.Ui.ServiceClient

/-! Replies of the service as the user interface reads them: when both agree on what a frame is. -/
namespace Redesk.Ui.ServiceClient
open Machine Service

variable {c : ServiceClient} {chunks : List Bytes} {b p : Bytes} {n : ℕ}

/-- The chunks bring the client one message, which is made of the bytes `p`, and nothing else. -/
def Received (c : ServiceClient) (chunks : List Bytes) (p : Bytes) : Prop :=
  ∃ opcode payload,
    ((calls step c (chunks.map .readyRead)).flatMap (·.res)).map (·.signal) =
        [.messageReceived opcode payload] ∧
      (Endian.encode kOpBytes opcode.toNat).reverse ++ payload = p ∧
        (final step c (chunks.map .readyRead)).rxBuffer = []

variable (chunks) in
/-- What the client emits for chunks of a stream, and the client that they leave. -/
theorem calls_readyRead (h : frames.cut c.rxBuffer = .more) :
    (∃ left, (frames.feed c.rxBuffer chunks).2 = some left ∧
      (calls step c (chunks.map .readyRead)).flatMap (·.res) =
        received c.state (frames.feed c.rxBuffer chunks).1 ∧
      final step c (chunks.map .readyRead) = { c with rxBuffer := left }) ∨
    (frames.feed c.rxBuffer chunks).2 = none ∧
      ∃ after, (calls step c (chunks.map .readyRead)).flatMap (·.res) =
        received c.state (frames.feed c.rxBuffer chunks).1 ++ (c.rejectFrame.1 ++ after) := by
  induction chunks generalizing c with
  | nil => exact .inl ⟨c.rxBuffer, rfl, rfl, rfl⟩
  | cons chunk chunks ih =>
    have hstep : step c (.readyRead chunk) =
        drainFrames { c with rxBuffer := c.rxBuffer ++ chunk } := rfl
    rw [drainFrames_eq, rejectFrame_rxBuffer] at hstep
    simp only [List.map_cons, calls, final, List.flatMap_cons, call_res, Buffer.Reader.feed, hstep]
    cases hd : frames.drain (c.rxBuffer ++ chunk) with
    | mk ms left =>
      cases left with
      | none => exact .inr ⟨rfl, _, List.append_assoc ..⟩
      | some left =>
        have hleft : frames.cut left = .more := by
          apply Buffer.Reader.cut_left (r := frames) (b := c.rxBuffer ++ chunk)
          rw [hd]
        rcases ih (c := { c with rxBuffer := left }) hleft with
          ⟨left', hf, he, hc⟩ | ⟨hf, after, he⟩
        · refine .inl ⟨left', hf, ?_, hc⟩
          simp only [received_append]
          exact congrArg _ he
        · refine .inr ⟨hf, after, ?_⟩
          simp only [received_append, List.append_assoc]
          rw [rejectFrame_rxBuffer] at he
          exact congrArg _ he

/-- The client reads the length of a reply with its bytes the other way round. -/
theorem frameLen_replyFrame :
    frameLen (replyFrame p) = qFromBigEndian (Endian.encode kLenBytes p.length) := by
  have htake : (replyFrame p).take kLenBytes = Endian.encode kLenBytes p.length :=
    List.take_left' (Endian.length_encode _ _)
  rw [frameLen, htake]

theorem length_replyFrame : (replyFrame p).length = kLenBytes + p.length := by
  rw [replyFrame, List.length_append, Endian.length_encode]
  rfl

/-- The bytes of a length below `2 ^ 24`, read the other way round. -/
theorem qFromBigEndian_encode {low mid high : ℕ} (hlow : low < 256) (hmid : mid < 256)
    (hhigh : high < 256) :
    qFromBigEndian (Endian.encode kLenBytes (low + 256 * (mid + 256 * high))) =
      256 * (high + 256 * (mid + 256 * low)) := by
  have hrest : (low + 256 * (mid + 256 * high)) / 256 = mid + 256 * high := by omega
  have hrest' : (mid + 256 * high) / 256 = high := by omega
  simp [qFromBigEndian, kLenBytes, Endian.encode, Endian.decode, hrest, hrest',
    Nat.mod_eq_of_lt hlow, Nat.mod_eq_of_lt hmid, Nat.mod_eq_of_lt hhigh, Nat.div_eq_of_lt hhigh]

/-- A length up to the cap reads the same in both directions when its two middle bytes are equal and
its lowest is zero. -/
theorem qFromBigEndian_encode_iff (h : n ≤ kMaxFrameBytes) :
    qFromBigEndian (Endian.encode kLenBytes n) = n ↔ 65792 ∣ n := by
  have hn : n ≤ 1048576 := h
  obtain ⟨low, mid, high, hlow, hmid, hhigh, rfl⟩ : ∃ low mid high,
      low < 256 ∧ mid < 256 ∧ high < 256 ∧ n = low + 256 * (mid + 256 * high) :=
    ⟨n % 256, n / 256 % 256, n / 256 / 256, by omega, by omega, by omega, by omega⟩
  rw [qFromBigEndian_encode hlow hmid hhigh]
  constructor
  · intro heq
    have hzero : low = 0 := by omega
    have hmiddle : mid = high := by omega
    exact ⟨high, by omega⟩
  · rintro ⟨k, hk⟩
    have hzero : low = 0 := by omega
    have hmiddle : mid = high := by omega
    omega

theorem cut_nil : frames.cut [] = .more := rfl

/-- A whole frame of the right length is drained as one message. -/
theorem drain_replyFrame (h2 : kOpBytes ≤ p.length) (hcap : p.length ≤ kMaxFrameBytes)
    (hlen : frameLen (replyFrame p) = p.length) : frames.drain (replyFrame p) =
      ([(UInt16.ofNat (qFromBigEndian (p.take kOpBytes)), p.drop kOpBytes)], some []) := by
  have hroom := length_replyFrame (p := p)
  have hheader : (Endian.encode kFrameHeaderBytes p.length).length = kLenBytes :=
    Endian.length_encode _ _
  have hdrop : (replyFrame p).drop kLenBytes = p := List.drop_left' hheader
  have hpayload : (replyFrame p).drop (kLenBytes + kOpBytes) = p.drop kOpBytes := by
    rw [← List.drop_drop, hdrop]
  have hcut : frames.cut (replyFrame p) = .item
      (UInt16.ofNat (qFromBigEndian (p.take kOpBytes)), p.drop kOpBytes) [] := by
    have hall : (replyFrame p).drop (kLenBytes + p.length) = [] :=
      List.drop_eq_nil_of_le (by omega)
    have htake : (p.drop kOpBytes).take (p.length - kOpBytes) = p.drop kOpBytes :=
      List.take_of_length_le (by rw [List.length_drop])
    have hstart : StartsWithFrame (replyFrame p) := by
      constructor <;> omega
    show cutFrame (replyFrame p) = _
    rw [cutFrame_of_startsWithFrame hstart, hlen, hdrop, hpayload, hall, htake]
  rw [Buffer.Reader.drain_item hcut, Buffer.Reader.drain_more cut_nil]

/-- A buffer that is drained to the end as one message has the length it says. -/
theorem frameLen_of_drain {x : UInt16 × Bytes} (h : frames.drain b = ([x], some [])) :
    b.length = kLenBytes + frameLen b := by
  cases hcut : frames.cut b with
  | more =>
    rw [Buffer.Reader.drain_more hcut] at h
    cases h
  | bad =>
    rw [Buffer.Reader.drain_bad hcut] at h
    cases h
  | item y rest =>
    obtain ⟨⟨-, -, -, hwhole⟩, -, hrest⟩ := cutFrame_eq_item hcut
    rw [Buffer.Reader.drain_item hcut] at h
    obtain ⟨hx, hleft⟩ := Prod.mk.inj h
    obtain ⟨-, hnone⟩ := List.cons_eq_cons.mp hx
    have hnil : [] = rest := Buffer.Reader.left_of_drain_nil (Prod.ext hnone hleft)
    have hge := List.drop_eq_nil_iff.mp (hrest.symm.trans hnil.symm)
    omega

theorem received_replyFrame_iff (h2 : kOpBytes ≤ p.length) (hcap : p.length ≤ kMaxFrameBytes)
    (hbuf : c.rxBuffer = []) (hchunks : chunks.flatten = replyFrame p) :
    Received c chunks p ↔ frameLen (replyFrame p) = p.length := by
  have hmore : frames.cut c.rxBuffer = .more := by
    rw [hbuf]
    exact cut_nil
  have hfeed : frames.feed c.rxBuffer chunks = frames.drain (replyFrame p) := by
    rw [Buffer.Reader.feed_eq_drain hmore, hbuf, List.nil_append, hchunks]
  constructor
  · rintro ⟨opcode, payload, hsignals, -, hempty⟩
    rcases calls_readyRead chunks hmore with ⟨left, hf, he, hc⟩ | ⟨-, after, he⟩
    · rw [hc] at hempty
      have hleft : left = [] := hempty
      subst hleft
      rw [hfeed] at hf he
      rw [he, received, List.map_map] at hsignals
      obtain ⟨x, hx⟩ : ∃ x, (frames.drain (replyFrame p)).1 = [x] := by
        rw [← List.length_eq_one_iff]
        simpa using congrArg List.length hsignals
      have hlen := frameLen_of_drain (b := replyFrame p) (Prod.ext hx hf)
      rw [length_replyFrame] at hlen
      omega
    · -- the error of a length that is out of bounds
      have herror : Signal.errorOccurred "IPC frame size out of bounds" ∈
          ((calls step c (chunks.map .readyRead)).flatMap (·.res)).map (·.signal) := by
        rw [he]
        simp [rejectFrame]
      rw [hsignals] at herror
      simp at herror
  · intro hlen
    have hdrain := drain_replyFrame h2 hcap hlen
    rcases calls_readyRead chunks hmore with ⟨left, hf, he, hc⟩ | ⟨hf, -⟩
    · rw [hfeed, hdrain] at hf he
      have hleft : left = [] := (Option.some.inj hf).symm
      refine ⟨_, _, by rw [he]; rfl, ?_, by rw [hc]; exact hleft⟩
      rw [opcode_bytes (by rw [List.length_take]; omega), List.take_append_drop]
    · rw [hfeed, hdrain] at hf
      cases hf

/-- The client reads a reply as the service wrote it just when its length is a multiple of 65792. -/
theorem received_iff {config : Config} {handler : IpcMessageHandler} {peer : PeerIdentity}
    {conn : Conn} {msg : IpcMessage} (h2 : 2 ≤ p.length) (hcap : p.length ≤ 1048576)
    (hreq : (serveConnection config (some handler) peer conn).1 = [msg])
    (hreply : (handler peer msg).payload = p) (hout : conn.output = [])
    (hw : Writable (kFrameHeaderBytes + p.length) conn.writes) (hbuf : c.rxBuffer = [])
    (hchunks : chunks.flatten = (serveConnection config (some handler) peer conn).2.output) :
    Received c chunks p ↔ 65792 ∣ p.length := by
  have hlt : p.length < 2 ^ 32 := by omega
  rw [output_serveConnection hreq hreply hlt hw, hout, List.nil_append] at hchunks
  rw [received_replyFrame_iff h2 hcap hbuf hchunks, frameLen_replyFrame]
  exact qFromBigEndian_encode_iff hcap

theorem received_of_dvd : Received { state := .ready }
    [(serveConnection {} (some fun _ _ => { payload := List.replicate 65792 0 })
      { authenticated := true }
      { input := [1, 0, 0, 0, 7], reads := [4, 1], writes := List.replicate 65796 1 }).2.output]
    (List.replicate 65792 0) := by
  have hlen : (List.replicate 65792 (0 : UInt8)).length = 65792 := List.length_replicate
  have hw : Writable (kFrameHeaderBytes + (List.replicate 65792 (0 : UInt8)).length)
      (List.replicate 65796 1) := by
    refine ⟨fun k hk => ?_, ?_⟩
    · rw [List.eq_of_mem_replicate hk]
      exact Nat.one_pos
    · rw [hlen, List.length_replicate]
      decide
  refine (received_iff (p := List.replicate 65792 0) ?_ ?_ (show _ = [{ payload := [7] }] from rfl)
    rfl rfl hw rfl (List.append_nil _)).mpr ?_
  · rw [hlen]
    decide
  · rw [hlen]
    decide
  · rw [hlen]

/-- A reply of two bytes is written with its length as `2, 0, 0, 0`, which the client takes for a
length out of bounds. -/
theorem not_received_two :
    (serveConnection {} (some fun _ _ => { payload := [0, 1] }) { authenticated := true }
      { input := [1, 0, 0, 0, 7], reads := [4, 1], writes := [4, 2] }).2.output =
        [2, 0, 0, 0, 0, 1] ∧
    ¬ Received { state := .ready } [[2, 0, 0, 0, 0, 1]] [0, 1] := by
  refine ⟨by decide, ?_⟩
  rw [received_replyFrame_iff (by decide) (by decide) rfl (by decide)]
  decide

end Redesk.Ui.ServiceClient
