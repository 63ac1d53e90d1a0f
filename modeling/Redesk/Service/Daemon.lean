import Redesk.Codec.Stub
import Redesk.Service.Endpoint
import Redesk.Service.Sessions

/-! The daemon of the service that is built without the engine: capture, encoding and sending in one
loop, beside an endpoint at which clients come and go, until the service is told to stop. -/
namespace Redesk.Service
open Machine

instance : Inhabited VideoFrame := ⟨{}⟩

structure StubCapturer where
  display : UInt32 := 0
  seq : UInt64 := 0
  running : Bool := false
  deriving DecidableEq, Repr

namespace StubCapturer

def start (c : StubCapturer) (displayIndex : UInt32) : Status × StubCapturer :=
  (.success, { c with display := displayIndex, running := true })

def stop (c : StubCapturer) : StubCapturer := { c with running := false }

def nextFrame (c : StubCapturer) : Result VideoFrame × StubCapturer :=
  if !c.running then (.fail .again "capturer stopped", c)
  else
    let seq := c.seq + 1
    let size : Size := ⟨64, 64⟩
    (.good {
      size := size
      format := .bgra8
      timestampUs := seq * 16666
      cpuPixels := .replicate (size.width.toNat * size.height.toNat * 4) (seq &&& 0xFF).toUInt8
      isIdle := false }, { c with seq := seq })

end StubCapturer

structure EncoderConfig where
  resolution : Size := {}
  targetBitrateBps : UInt32 := 8000000
  framerate : UInt32 := 60
  deriving DecidableEq, Repr

structure StubEncoder where
  cfg : EncoderConfig := {}
  frameCount : UInt64 := 0
  deriving DecidableEq, Repr

namespace StubEncoder

def configure (e : StubEncoder) (cfg : EncoderConfig) : Status × StubEncoder :=
  (.success, { e with cfg := cfg })

/-- A quarter of the pixels and one more byte; a read past the pixels has no value. -/
def encode (e : StubEncoder) (frame : VideoFrame) :
    Option (Result EncodedPacket × StubEncoder) := do
  let keyframe := decide (e.frameCount % 60 = 0)
  let take := frame.cpuPixels.length / 4 + 1
  let pixels ← Buffer.slice frame.cpuPixels 0 take
  return (.good {
    data := (if keyframe then 0xFF else 0xAA) :: pixels
    timestampUs := frame.timestampUs
    keyframe := keyframe }, { e with frameCount := e.frameCount + 1 })

end StubEncoder

structure StubTransport where
  bytes : UInt64 := 0
  running : Bool := false
  deriving DecidableEq, Repr

namespace StubTransport

def start (t : StubTransport) : Status × StubTransport := (.success, { t with running := true })

def stop (t : StubTransport) : StubTransport := { t with running := false }

def sendVideo (t : StubTransport) (pkt : EncodedPacket) : Status × StubTransport :=
  if !t.running then (.error .connectionLost "transport stopped", t)
  else (.success, { t with bytes := t.bytes + .ofNat pkt.data.length })

def bytesSent (t : StubTransport) : UInt64 := t.bytes

end StubTransport

/-- The objects are those that the factories make. -/
structure Daemon where
  capturer : StubCapturer := {}
  encoder : StubEncoder := {}
  transport : StubTransport := {}
  ipc : UdsIpcServer := {}
  sessions : SessionManager := {}

/-- `"REDESK-ACK"`, whatever was asked. -/
def handleIpc : IpcMessageHandler := fun _ _ =>
  { payload := [0x52, 0x45, 0x44, 0x45, 0x53, 0x4B, 0x2D, 0x41, 0x43, 0x4B] }

/-- The endpoint that the daemon configures. -/
def kEndpoint : String := "/tmp/redesk-service.sock"

def kMaxStubTicks : ℕ := 180

namespace Daemon

/-- Without an endpoint the daemon goes on. -/
def build (d : Daemon) (a : SystemAnswers) : Bool × Daemon :=
  let (s, transport) := d.transport.start
  let d := { d with transport }
  if !s.ok then (false, d)
  else
    let (s, capturer) := d.capturer.start 0
    let d := { d with capturer }
    if !s.ok then (false, d)
    else
      let (s, encoder) := d.encoder.configure
        { resolution := ⟨64, 64⟩, targetBitrateBps := 8000000, framerate := 60 }
      let d := { d with encoder }
      if !s.ok then (false, d)
      else
        let (_, ipc) := d.ipc.start kEndpoint {} (some handleIpc) a
        (true, { d with ipc })

/-- Whether the loop goes on, and what was sent. -/
def pumpPipeline (d : Daemon) : Option (Bool × List EncodedPacket × Daemon) :=
  let (frame, capturer) := d.capturer.nextFrame
  let d := { d with capturer }
  if !frame.status.ok then some (decide (frame.status.code = .again), [], d)
  else do
    let (pkt, encoder) ← d.encoder.encode frame.value
    let d := { d with encoder }
    if !pkt.status.ok then return (false, [], d)
    let (s, transport) := d.transport.sendVideo pkt.value
    let d := { d with transport }
    return if !s.ok then (false, [], d) else (true, [pkt.value], d)

def tearDown (d : Daemon) (unlinked : Bool) : Daemon :=
  { d with
    sessions := d.sessions.closeSession 1
    ipc := d.ipc.stop unlinked
    transport := d.transport.stop
    capturer := d.capturer.stop }

/-- The accept thread gets connections. -/
def accept (d : Daemon) (fds : List ℤ) : Daemon :=
  { d with ipc := fds.foldl (fun s fd => (s.step (.connection fd)).2) d.ipc }

end Daemon

/-- What happens beside the loop: whether the stop flag is set when the loop looks at it for the
`n`-th time, and the descriptors of the connections that were accepted since it last did; and
whether the system lets the teardown remove the node of the endpoint. -/
structure Surroundings where
  stop : ℕ → Bool
  clients : ℕ → List ℤ
  unlinked : Bool := true

/-- The ticks that were run and what was sent in them. -/
def runLoop (w : Surroundings) (d : Daemon) (tick : ℕ) :
    Option (ℕ × List EncodedPacket × Daemon) :=
  let d := d.accept (w.clients tick)
  if _h : w.stop tick = false ∧ tick < kMaxStubTicks then do
    let (more, sent, d) ← d.pumpPipeline
    if !more then return (tick, sent, d)
    let (n, sent', d) ← runLoop w d (tick + 1)
    return (n, sent ++ sent', d)
  else some (tick, [], d)
  termination_by kMaxStubTicks - tick

/-- The exit code, the ticks that were run, what was sent and what is left of the daemon. -/
def runDaemonBody (w : Surroundings) (a : SystemAnswers) :
    Option (ℤ × ℕ × List EncodedPacket × Daemon) :=
  let (built, d) := Daemon.build {} a
  if !built then some (1, 0, [], d)
  else do
    let (_, sessions) := d.sessions.openSession "smoke-peer"
    let (n, sent, d) ← runLoop w { d with sessions } 0
    return (0, n, sent, d.tearDown w.unlinked)

/-- The frame that is captured in a tick. -/
def frameAt (k : ℕ) : VideoFrame where
  size := ⟨64, 64⟩
  format := .bgra8
  timestampUs := .ofNat (16666 * (k + 1))
  cpuPixels := .replicate 16384 (.ofNat (k + 1))

/-- The packet that is sent in a tick. -/
def packetAt (k : ℕ) : EncodedPacket where
  data := (if k % 60 = 0 then 0xFF else 0xAA) :: .replicate 4097 (.ofNat (k + 1))
  timestampUs := .ofNat (16666 * (k + 1))
  keyframe := decide (k % 60 = 0)

/-- The stop flag is what ends the loop, unless all ticks were run. -/
structure Ticks (stop : ℕ → Bool) (n : ℕ) : Prop where
  le : n ≤ kMaxStubTicks
  going : ∀ k < n, stop k = false
  stopped : n < kMaxStubTicks → stop n = true

/-- The daemon is gone: nothing runs, and the system has everything back, the node of the endpoint
too if it could be removed. -/
structure ShutDown (nodes : String → Option ℕ) (umasked : ℕ) (unlinked : Bool) (d : Daemon) :
    Prop where
  capturer : d.capturer.running = false
  transport : d.transport.running = false
  ipc : d.ipc.running = false
  sessions : d.sessions.activeSessions = 0
  secure : Secure nodes umasked d.ipc.trace
  descriptors : ∀ fd, ¬ Descriptors.IsOpen (descriptors d.ipc.trace) fd
  node : unlinked = true → modeAt nodes umasked d.ipc.trace kEndpoint = none

variable {k : ℕ}

theorem ofNat_add_one (k : ℕ) : UInt64.ofNat k + 1 = .ofNat (k + 1) :=
  (UInt64.ofNat_add k 1).symm

theorem nextFrame_of_running {c : StubCapturer} (hc : c.running = true) (hs : c.seq = .ofNat k) :
    c.nextFrame = (.good (frameAt k), { c with seq := .ofNat (k + 1) }) := by
  have htime : UInt64.ofNat (k + 1) * 16666 = .ofNat (16666 * (k + 1)) := by
    rw [Nat.mul_comm, UInt64.ofNat_mul]
    rfl
  have hpixel : (UInt64.ofNat (k + 1) &&& 0xFF).toUInt8 = .ofNat (k + 1) := by
    rw [← UInt8.toNat_inj, UInt64.toNat_toUInt8, UInt64.toNat_and, UInt64.toNat_ofNat',
      UInt8.toNat_ofNat']
    change ((k + 1) % 2 ^ 64 &&& 2 ^ 8 - 1) % 2 ^ 8 = _
    rw [Nat.and_two_pow_sub_one_eq_mod, Nat.mod_mod, Nat.mod_mod_of_dvd _ (by decide)]
  unfold StubCapturer.nextFrame frameAt
  simp only [hc, hs, ofNat_add_one, htime, hpixel]
  rfl

/-- A quarter of the pixels and one more are there, as long as the frame is not empty. -/
theorem encode_of_ne_nil (e : StubEncoder) {frame : VideoFrame} (hne : frame.cpuPixels ≠ []) :
    e.encode frame = some (.good {
      data := (if e.frameCount % 60 = 0 then 0xFF else 0xAA) ::
        frame.cpuPixels.take (frame.cpuPixels.length / 4 + 1)
      timestampUs := frame.timestampUs
      keyframe := decide (e.frameCount % 60 = 0) },
      { e with frameCount := e.frameCount + 1 }) := by
  have hlen : 0 < frame.cpuPixels.length := List.length_pos_iff.mpr hne
  have hin : 0 + (frame.cpuPixels.length / 4 + 1) ≤ frame.cpuPixels.length := by omega
  unfold StubEncoder.encode
  simp only [Buffer.slice_of_drop List.drop_zero hin, decide_eq_true_eq]
  rfl

theorem keyframe_iff (hk : k < 2 ^ 64) : UInt64.ofNat k % 60 = 0 ↔ k % 60 = 0 := by
  rw [← UInt64.toNat_inj, UInt64.toNat_mod, UInt64.toNat_ofNat_of_lt' hk]
  rfl

theorem encode_frameAt {e : StubEncoder} (he : e.frameCount = .ofNat k) (hk : k < 2 ^ 64) :
    e.encode (frameAt k) = some (.good (packetAt k), { e with frameCount := .ofNat (k + 1) }) := by
  have htake : (frameAt k).cpuPixels.take ((frameAt k).cpuPixels.length / 4 + 1) =
      .replicate 4097 (.ofNat (k + 1)) := by
    unfold frameAt
    rw [List.length_replicate, List.take_replicate]
    rfl
  have hne : (frameAt k).cpuPixels ≠ [] := by
    unfold frameAt
    rw [Ne, List.replicate_eq_nil_iff]
    decide
  rw [encode_of_ne_nil e hne, htake, he, ofNat_add_one]
  simp only [keyframe_iff hk]
  rfl

theorem sendVideo_packetAt {t : StubTransport} (ht : t.running = true)
    (hb : t.bytes = .ofNat (4098 * k)) :
    t.sendVideo (packetAt k) = (.success, { t with bytes := .ofNat (4098 * (k + 1)) }) := by
  have hlen : (packetAt k).data.length = 4098 := by
    unfold packetAt
    rw [List.length_cons, List.length_replicate]
  unfold StubTransport.sendVideo
  rw [if_neg (by simp [ht]), hb, hlen, ← UInt64.ofNat_add, Nat.mul_succ]

namespace Daemon
variable {d : Daemon}

/-- The pipeline has run so many ticks. -/
structure Streaming (k : ℕ) (d : Daemon) : Prop where
  capturing : d.capturer.running = true
  seq : d.capturer.seq = .ofNat k
  frameCount : d.encoder.frameCount = .ofNat k
  sending : d.transport.running = true
  bytes : d.transport.bytes = .ofNat (4098 * k)

/-- A tick captures one frame and sends its packet, and leaves the rest of the daemon alone. -/
theorem Streaming.pump (hd : Streaming k d) (hk : k < 2 ^ 64) :
    ∃ d', d.pumpPipeline = some (true, [packetAt k], d') ∧ Streaming (k + 1) d' ∧
      d'.ipc = d.ipc ∧ d'.sessions = d.sessions := by
  have hframe := nextFrame_of_running hd.capturing hd.seq
  have hpacket := encode_frameAt hd.frameCount hk
  have hsend := sendVideo_packetAt hd.sending hd.bytes
  refine ⟨{ d with
    capturer := { d.capturer with seq := .ofNat (k + 1) }
    encoder := { d.encoder with frameCount := .ofNat (k + 1) }
    transport := { d.transport with bytes := .ofNat (4098 * (k + 1)) } }, ?_, ?_, rfl, rfl⟩
  · unfold pumpPipeline
    have hok : Status.success.ok = true := rfl
    simp only [hframe, Result.good, hok, Bool.not_true, Bool.false_eq_true, if_false]
    change (d.encoder.encode (frameAt k)).bind _ = _
    rw [hpacket]
    simp only [Option.bind_some, Result.good, hok, Bool.not_true, Bool.false_eq_true, if_false,
      hsend]
    rfl
  · exact ⟨hd.capturing, rfl, rfl, hd.sending, rfl⟩

end Daemon

namespace UdsIpcServer
variable {nodes : String → Option ℕ} {umasked : ℕ} {s : UdsIpcServer} {a : SystemAnswers}

@[simp] theorem endpoint_removeEndpoint (s : UdsIpcServer) (unlinked : Bool) :
    (s.removeEndpoint unlinked).endpoint = s.endpoint := by
  unfold removeEndpoint
  split
  · exact endpoint_unlink s unlinked
  · rfl

@[simp] theorem running_removeEndpoint (s : UdsIpcServer) (unlinked : Bool) :
    (s.removeEndpoint unlinked).running = s.running := by
  unfold removeEndpoint
  split
  · exact running_unlink s unlinked
  · rfl

@[simp] theorem endpoint_stop (s : UdsIpcServer) (unlinked : Bool) :
    (s.stop unlinked).endpoint = s.endpoint := by
  unfold stop
  rw [endpoint_removeEndpoint]
  exact endpoint_closeListener _

@[simp] theorem running_stop (s : UdsIpcServer) (unlinked : Bool) :
    (s.stop unlinked).running = false := by
  unfold stop
  rw [running_removeEndpoint]
  exact running_closeListener _

/-- A server that could be brought up keeps its descriptor; otherwise it was stopped. -/
theorem bringUp_keeps (s : UdsIpcServer) (a : SystemAnswers) :
    (s.bringUp a).2.endpoint = s.endpoint ∧
      ((s.bringUp a).2.running = true → (s.bringUp a).2.listenFd = s.listenFd) := by
  unfold bringUp
  split
  · simp
  split
  · simp
  dsimp only
  split
  · simp
  split
  · simp
  · exact ⟨rfl, fun _ => rfl⟩

/-- The server of a daemon, as long as nobody stops it. -/
structure Serving (nodes : String → Option ℕ) (umasked : ℕ) (a : SystemAnswers)
    (s : UdsIpcServer) : Prop where
  settled : Settled nodes umasked s
  endpoint : s.endpoint = kEndpoint
  listenFd : s.running = true → s.listenFd = a.socket

theorem serving_start (nodes : String → Option ℕ) (umasked : ℕ) (a : SystemAnswers)
    (config : Config) (handler : Option IpcMessageHandler) :
    Serving nodes umasked a (start {} kEndpoint config handler a).2 := by
  have hlegal : Legal {} (.start kEndpoint config handler a) :=
    ⟨rfl, fun _ => Descriptors.not_isOpen_nil⟩
  have hsettled : Settled nodes umasked (step {} (.start kEndpoint config handler a)).2 :=
    settled_step settled_init hlegal
  refine ⟨hsettled, ?_, ?_⟩
  · unfold start
    dsimp only
    split
    · rfl
    · rw [(bringUp_keeps _ a).1, endpoint_unlink]
      rfl
  · unfold start
    dsimp only
    split
    · simp
    · intro hrun
      rw [(bringUp_keeps _ a).2 hrun, listenFd_unlink]
      rfl

/-- Clients come and go. -/
theorem Serving.connection (hs : Serving nodes umasked a s) {fd : ℤ} (hfd : fd ≠ a.socket) :
    Serving nodes umasked a (s.step (.connection fd)).2 := by
  have hlegal : s.Legal (.connection fd) := by
    intro hopen
    obtain ⟨-, hheld⟩ := (hs.settled.owned_running.isOpen_iff fd).mp hopen
    split at hheld
    · rename_i hrun
      rw [hs.listenFd hrun, Option.some.injEq] at hheld
      exact hfd hheld.symm
    · cases hheld
  refine ⟨settled_step hs.settled hlegal, ?_, ?_⟩
  · unfold step
    dsimp only
    split
    · exact hs.endpoint
    · exact hs.endpoint
  · unfold step
    dsimp only
    split
    · exact hs.listenFd
    · exact hs.listenFd

end UdsIpcServer

section Run
variable {nodes : String → Option ℕ} {umasked : ℕ} {a : SystemAnswers} {w : Surroundings}
  {d : Daemon}

theorem serving_accept {fds : List ℤ} (hs : UdsIpcServer.Serving nodes umasked a d.ipc)
    (hfds : ∀ fd ∈ fds, fd ≠ a.socket) :
    UdsIpcServer.Serving nodes umasked a (d.accept fds).ipc := by
  unfold Daemon.accept
  generalize d.ipc = s at hs
  induction fds generalizing s with
  | nil => exact hs
  | cons fd fds ih =>
    rw [List.forall_mem_cons] at hfds
    exact ih hfds.2 _ (hs.connection hfds.1)

/-- The loop sends a packet for each tick, from the one it starts with to the one it ends before. -/
theorem runLoop_streams (k : ℕ) (d : Daemon) (hw : ∀ tick, ∀ fd ∈ w.clients tick, fd ≠ a.socket)
    (hk : k ≤ kMaxStubTicks) (hgoing : ∀ j < k, w.stop j = false) (hd : d.Streaming k)
    (hs : UdsIpcServer.Serving nodes umasked a d.ipc) :
    ∃ m d', runLoop w d k = some (k + m, (List.range' k m).map packetAt, d') ∧
      Ticks w.stop (k + m) ∧ d'.Streaming (k + m) ∧
      UdsIpcServer.Serving nodes umasked a d'.ipc ∧ d'.sessions = d.sessions := by
  have hserved := serving_accept hs (hw k)
  have hstreaming : (d.accept (w.clients k)).Streaming k :=
    ⟨hd.capturing, hd.seq, hd.frameCount, hd.sending, hd.bytes⟩
  rw [runLoop]
  by_cases hloop : w.stop k = false ∧ k < kMaxStubTicks
  · have hlt : k < 2 ^ 64 := hloop.2.trans (by decide)
    obtain ⟨d₁, hpump, hd₁, hipc, hsessions⟩ := hstreaming.pump hlt
    have hgoing' : ∀ j < k + 1, w.stop j = false := by
      intro j hj
      rcases Nat.lt_succ_iff_lt_or_eq.mp hj with hj | rfl
      · exact hgoing j hj
      · exact hloop.1
    obtain ⟨m, d₂, hrest, hticks, hd₂, hs₂, hsessions₂⟩ :=
      runLoop_streams (k + 1) d₁ hw hloop.2 hgoing' hd₁ (hipc ▸ hserved)
    rw [Nat.add_right_comm, Nat.add_assoc] at hrest hticks hd₂
    refine ⟨m + 1, d₂, ?_, hticks, hd₂, hs₂, ?_⟩
    · rw [dif_pos hloop, hpump, List.range'_succ, List.map_cons]
      change (runLoop w d₁ (k + 1)).bind _ = _
      rw [hrest]
      rfl
    · rw [hsessions₂, hsessions]
      rfl
  · refine ⟨0, d.accept (w.clients k), ?_, ⟨hk, hgoing, ?_⟩, hstreaming, hserved, rfl⟩
    · rw [dif_neg hloop]
      rfl
    · intro hlt
      by_contra hstop
      exact hloop ⟨by simpa using hstop, hlt⟩
  termination_by kMaxStubTicks - k

/-- One session is open, and it is the one that is closed. -/
theorem shutDown_tearDown (hs : UdsIpcServer.Serving nodes umasked a d.ipc)
    (hactive : d.sessions.active = 1) (unlinked : Bool) :
    ShutDown nodes umasked unlinked (d.tearDown unlinked) := by
  obtain ⟨hsettled, hstopped⟩ := hs.settled.toHeld.stop unlinked
  refine ⟨rfl, rfl, hstopped, ?_, hsettled.secure, ?_, ?_⟩
  · change (d.sessions.closeSession 1).active = 0
    rw [SessionManager.closeSession, if_pos (by rw [hactive]; decide), hactive]
    rfl
  · exact fun fd => (hsettled.owned_none hstopped).not_isOpen (fun _ => rfl) fd
  · rintro rfl
    have hname : (d.ipc.stop true).endpoint = kEndpoint := by
      rw [UdsIpcServer.endpoint_stop, hs.endpoint]
    rw [← hname]
    exact UdsIpcServer.modeAt_stop d.ipc (by rw [hname]; decide)

end Run
end Redesk.Service
