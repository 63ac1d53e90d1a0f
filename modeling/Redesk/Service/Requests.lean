import Redesk.Service.IpcServer

/-! Which requests reach the handler of the service, and what the peer is sent back. -/
namespace Redesk.Service

variable {conn : Conn} {config : Config} {handler : IpcMessageHandler} {peer : PeerIdentity}
  {msg : IpcMessage} {p : Bytes}

/-- The length that the first bytes of a connection give. -/
def Conn.requestLength (c : Conn) : ℕ := Endian.decode (c.input.take kFrameHeaderBytes)

/-- The peer is authenticated and sends a length from 1 up to the cap, and then as many bytes. -/
structure Requests (config : Config) (peer : PeerIdentity) (conn : Conn) (p : Bytes) : Prop where
  authenticated : peer.authenticated
  header : conn.Arrives kFrameHeaderBytes
  least : 1 ≤ conn.requestLength
  most : conn.requestLength ≤ config.maxMessageBytes
  body : (conn.skip kFrameHeaderBytes).Arrives conn.requestLength
  payload : p = (conn.input.drop kFrameHeaderBytes).take conn.requestLength

/-- The handler is called for a request, with its bytes and once, and its reply is framed and
written as far as the writes carry it. -/
structure Answers (config : Config) (handler : IpcMessageHandler) (peer : PeerIdentity)
    (conn : Conn) : Prop where
  once : (serveConnection config (some handler) peer conn).1.length ≤ 1
  called : ∀ msg, msg ∈ (serveConnection config (some handler) peer conn).1 ↔
    Requests config peer conn msg.payload
  replied : ∀ msg ∈ (serveConnection config (some handler) peer conn).1,
    (handler peer msg).payload.length < 2 ^ 32 →
      ∃ sent, (serveConnection config (some handler) peer conn).2.output = conn.output ++ sent ∧
        sent <+: replyFrame (handler peer msg).payload ∧
        (sent = replyFrame (handler peer msg).payload ↔
          CarriesReply conn.writes (handler peer msg).payload.length)
  silent : (serveConnection config (some handler) peer conn).1 = [] →
    (serveConnection config (some handler) peer conn).2.output = conn.output

/-- What serving comes to: a call for the request and its reply, or neither. -/
theorem serveConnection_cases (config : Config) (handler : IpcMessageHandler)
    (peer : PeerIdentity) (conn : Conn) :
    (∃ msg conn', Requests config peer conn msg.payload ∧ conn'.output = conn.output ∧
        conn'.writes = conn.writes ∧ serveConnection config (some handler) peer conn =
          ([msg], writeReply (handler peer msg) conn')) ∨
      (∀ p, ¬ Requests config peer conn p) ∧
        (serveConnection config (some handler) peer conn).1 = [] ∧
        (serveConnection config (some handler) peer conn).2.output = conn.output := by
  rw [serveConnection]
  by_cases hauth : peer.authenticated
  swap
  · rw [if_pos (by simpa using hauth)]
    exact .inr ⟨fun p h => hauth h.authenticated, rfl, rfl⟩
  rw [if_neg (by simpa using hauth)]
  rcases readExact_cases conn kFrameHeaderBytes with ⟨hheader, hread⟩ | ⟨hn, hnone⟩
  swap
  · have hread : conn.readExact kFrameHeaderBytes =
        (none, (conn.readExact kFrameHeaderBytes).2) := Prod.ext hnone rfl
    rw [hread]
    exact .inr ⟨fun p h => hn h.header, rfl, output_of_readExact hread⟩
  have hskip : (conn.skip kFrameHeaderBytes).output = conn.output := rfl
  simp only [hread]
  split
  · rename_i hbounds
    refine .inr ⟨fun p h => ?_, rfl, hskip⟩
    rcases hbounds with hzero | hlarge
    · exact absurd h.least (by rw [Conn.requestLength, hzero]; decide)
    · exact absurd h.most (Nat.not_le.mpr hlarge)
  rename_i hbounds
  rcases readExact_cases (conn.skip kFrameHeaderBytes) conn.requestLength with
    ⟨hbody, hread'⟩ | ⟨hn, hnone⟩
  · refine .inl ⟨{ payload := (conn.input.drop kFrameHeaderBytes).take conn.requestLength },
      (conn.skip kFrameHeaderBytes).skip conn.requestLength,
      ⟨hauth, hheader, ?_, ?_, hbody, rfl⟩, rfl, rfl, ?_⟩
    · exact Nat.pos_of_ne_zero fun hzero => hbounds (.inl hzero)
    · exact Nat.le_of_not_lt fun hlarge => hbounds (.inr hlarge)
    · rw [show Endian.decode (conn.input.take kFrameHeaderBytes) = conn.requestLength from rfl,
        hread']
      rfl
  · have hread' : (conn.skip kFrameHeaderBytes).readExact conn.requestLength =
        (none, ((conn.skip kFrameHeaderBytes).readExact conn.requestLength).2) :=
      Prod.ext hnone rfl
    rw [show Endian.decode (conn.input.take kFrameHeaderBytes) = conn.requestLength from rfl,
      hread']
    exact .inr ⟨fun p h => hn h.body, rfl, (output_of_readExact hread').trans hskip⟩

/-- What a connection is sent in answer to its request, if no write fails. -/
theorem output_serveConnection
    (hreq : (serveConnection config (some handler) peer conn).1 = [msg])
    (hreply : (handler peer msg).payload = p) (hlen : p.length < 2 ^ 32)
    (hw : Writable (kFrameHeaderBytes + p.length) conn.writes) :
    (serveConnection config (some handler) peer conn).2.output = conn.output ++ replyFrame p := by
  subst hreply
  rcases serveConnection_cases config handler peer conn with
    ⟨m, conn', -, hout, hwrites, hserved⟩ | ⟨-, hnone, -⟩
  · rw [hserved] at hreq ⊢
    obtain rfl := List.singleton_inj.mp hreq
    obtain ⟨sent, hsent, -, hall⟩ := output_writeReply conn' hlen
    rw [hwrites, iff_true_right (carriesReply_of_writable hw)] at hall
    rw [← hout, ← hall]
    exact hsent
  · rw [hnone] at hreq
    cases hreq

theorem Requests.payload_inj {p' : Bytes} (h : Requests config peer conn p)
    (h' : Requests config peer conn p') : p = p' := h.payload.trans h'.payload.symm

/-- However the reads and writes of a connection are split and wherever they fail, its request is
answered. -/
theorem answers (config : Config) (handler : IpcMessageHandler) (peer : PeerIdentity)
    (conn : Conn) : Answers config handler peer conn := by
  rcases serveConnection_cases config handler peer conn with
    ⟨msg, conn', hreq, hout, hwrites, hserved⟩ | ⟨hnone, hmsgs, hsilent⟩
  · constructor
    · rw [hserved]
      exact le_rfl
    · intro m
      rw [hserved, List.mem_singleton]
      constructor
      · rintro rfl
        exact hreq
      · intro hm
        cases m
        cases msg
        exact congrArg IpcMessage.mk (hm.payload_inj hreq)
    · intro m hm hlen
      rw [hserved, List.mem_singleton] at hm
      subst hm
      obtain ⟨sent, hsent, hprefix, hall⟩ := output_writeReply conn' hlen
      rw [hwrites] at hall
      exact ⟨sent, by rw [hserved, ← hout]; exact hsent, hprefix, hall⟩
    · intro hnil
      rw [hserved] at hnil
      cases hnil
  · constructor
    · rw [hmsgs]
      exact Nat.zero_le 1
    · intro m
      rw [hmsgs]
      exact iff_of_false List.not_mem_nil (hnone m.payload)
    · intro m hm
      rw [hmsgs] at hm
      cases hm
    · exact fun _ => hsilent

end Redesk.Service
