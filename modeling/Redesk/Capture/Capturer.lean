import Redesk.Capture.Cursor
import Redesk.Codec.Stub
import Redesk.Machine.Nested
import Redesk.Machine.Past

/-! The capturer of the default build. Each pump draws a frame and a cursor from the number of the
frame, and hands them to the callbacks that are installed. A callback may call the capturer again:
it may end the capture that it is called from, begin another or pump. -/
namespace Redesk.Capture
open Machine Routine

structure CursorSample where
  x : Int32 := 0
  y : Int32 := 0
  hotspotX : Int32 := 0
  hotspotY : Int32 := 0
  shapeSize : Size := {}
  image : Bytes := []
  visible : Bool := true
  timestampUs : UInt64 := 0
  deriving DecidableEq

structure CaptureConfig where
  displayId : String := ""
  targetFps : UInt32 := 60
  captureCursor : Bool := true
  preferHdr : Bool := false
  preferredFormat : PixelFormat := .nv12
  deriving DecidableEq

def kFrameIntervalUs : UInt64 := 16666

/-- Of the callbacks it is kept whether there is one. -/
structure StubCapturer where
  frameCb : Bool := false
  cursorCb : Bool := false
  config : CaptureConfig := {}
  capturing : Bool := false
  frameIndex : UInt64 := 0
  deriving DecidableEq

namespace StubCapturer

def start (c : StubCapturer) (config : CaptureConfig) : Status × StubCapturer :=
  if c.capturing then (.error .invalidArgument "already capturing", c)
  else (.success, { c with config := config, capturing := true, frameIndex := 0 })

def stop (c : StubCapturer) : StubCapturer := { c with capturing := false }

/-- Blue, green, red and alpha of a pixel. -/
def pixel (shift x y : UInt32) : Bytes :=
  [((x + shift) &&& 0xFF).toUInt8, ((y + shift) &&& 0xFF).toUInt8,
    ((x + y + shift) &&& 0xFF).toUInt8, 0xFF]

/-- The diagonal gradient, row by row. -/
def gradient (width height : ℕ) (shift : UInt32) : Bytes :=
  (List.range height).flatMap fun y =>
    (List.range width).flatMap fun x => pixel shift (.ofNat x) (.ofNat y)

def deliverFrame (c : StubCapturer) : Option VideoFrame :=
  if !c.frameCb then none
  else some {
    size := ⟨.ofNat kStubWidth, .ofNat kStubHeight⟩
    format := .bgra8
    timestampUs := c.frameIndex * kFrameIntervalUs
    nativeHandle := 0
    cpuPixels := gradient kStubWidth kStubHeight (c.frameIndex * 4).toUInt32
    dirtyRects := [⟨0, 0, .ofNat kStubWidth, .ofNat kStubHeight⟩]
    isIdle := false }

/-- It has no result if the place is not found in finitely many steps. -/
def deliverCursor (c : StubCapturer) : Option (Option CursorSample) :=
  if !c.cursorCb || !c.config.captureCursor then some none
  else do
    let (x, y) ← position c.frameIndex
    let sample : CursorSample := {
      x := x
      y := y
      visible := true
      timestampUs := c.frameIndex * kFrameIntervalUs }
    return some (if c.frameIndex = 0 then
      { sample with shapeSize := ⟨8, 8⟩, image := .replicate (8 * 8 * 4) 0xFF }
    else sample)

/-- What happens, one after another. A pump is three of these: after the first and the second its
callbacks run. -/
inductive Op where
  | setFrameCallback (cb : Bool)
  | setCursorCallback (cb : Bool)
  | start (config : CaptureConfig)
  | stop
  | pump
  | deliverCursor
  | advance
  deriving DecidableEq

/-- What a call returns, if it does, and what the callbacks are called with. -/
structure Reply where
  returns : Bool := true
  status : Status := .success
  frame : Option VideoFrame := none
  cursor : Option CursorSample := none
  deriving DecidableEq

def step (c : StubCapturer) : Op → Reply × StubCapturer
  | .setFrameCallback cb => ({}, { c with frameCb := cb })
  | .setCursorCallback cb => ({}, { c with cursorCb := cb })
  | .start config => ({ status := (c.start config).1 }, (c.start config).2)
  | .stop => ({}, c.stop)
  | .pump => if c.capturing then ({ frame := c.deliverFrame }, c) else ({}, c)
  | .deliverCursor =>
    match c.deliverCursor with
    | some cursor => ({ cursor := cursor }, c)
    | none => ({ returns := false }, c)
  | .advance => ({}, { c with frameIndex := c.frameIndex + 1 })

/-- What the owner of a capturer calls, and what the callbacks call if a pump gets to them. -/
inductive Usage where
  | setFrameCallback (cb : Bool)
  | setCursorCallback (cb : Bool)
  | start (config : CaptureConfig)
  | stop
  | pump (inFrame inCursor : List Usage)

def act (op : Op) : Routine StubCapturer Op Reply := one step Reply.returns op

/-- A pump, given what the callbacks do. Whether there is a capture is looked at before the frame
only. A callback that replaces itself is taken to go on. -/
def pump (inFrame inCursor : Routine StubCapturer Op Reply) : Routine StubCapturer Op Reply :=
  (act .pump).andThen <| when (b := (·.capturing)) <|
    (inFrame.when (·.frameCb)).andThen <| (act .deliverCursor).andThen <|
      (inCursor.when fun c => c.cursorCb && c.config.captureCursor).andThen <| act .advance

mutual

def exec : Usage → Routine StubCapturer Op Reply
  | .setFrameCallback cb => act (.setFrameCallback cb)
  | .setCursorCallback cb => act (.setCursorCallback cb)
  | .start config => act (.start config)
  | .stop => act .stop
  | .pump inFrame inCursor => pump (execAll inFrame) (execAll inCursor)

def execAll : List Usage → Routine StubCapturer Op Reply
  | [] => skip
  | u :: us => (exec u).andThen (execAll us)

end

abbrev Call := Machine.Call StubCapturer Op Reply

/-- The frame of a capture with the number `k`. -/
def frameAt (k : ℕ) : VideoFrame where
  size := ⟨1280, 720⟩
  format := .bgra8
  timestampUs := .ofNat (16666 * k)
  cpuPixels := gradient kStubWidth kStubHeight (.ofNat (4 * k))
  dirtyRects := [⟨0, 0, 1280, 720⟩]

/-- The cursor that goes with it. Only the first one has a shape. -/
def cursorAt (place : Int32 × Int32) (k : ℕ) : CursorSample where
  x := place.1
  y := place.2
  shapeSize := if UInt64.ofNat k = 0 then ⟨8, 8⟩ else {}
  image := if UInt64.ofNat k = 0 then .replicate 256 0xFF else []
  timestampUs := .ofNat (16666 * k)

def setsFrameCallback (c : Call) : Option Bool :=
  match c.op with
  | .setFrameCallback cb => some cb
  | _ => none

def setsCursorCallback (c : Call) : Option Bool :=
  match c.op with
  | .setCursorCallback cb => some cb
  | _ => none

/-- A start that succeeds. -/
def begins (c : Call) : Option CaptureConfig :=
  match c.op with
  | .start config => if c.res.status.ok then some config else none
  | _ => none

/-- The last capture that was started has this configuration, and `k` of its frames are over. -/
def LastCapture (h : List Call) (config : CaptureConfig) (k : ℕ) : Prop :=
  ∃ a c b, h = a ++ c :: b ∧ begins c = some config ∧ (∀ d ∈ b, begins d = none) ∧
    k = b.countP fun d => d.op = .advance

/-- The last capture has not been stopped. -/
def Capturing (h : List Call) : Prop :=
  Since (fun c => (begins c).isSome = true) (fun c => c.op = .stop) h

/-- The pumps that began in a capture, the cursors and the ends of pumps. -/
def pumps (h : List Call) : ℕ := h.countP fun c => c.op = .pump ∧ c.pre.capturing

def cursors (h : List Call) : ℕ := h.countP fun c => c.op = .deliverCursor

def advances (h : List Call) : ℕ := h.countP fun c => c.op = .advance

/-- What a call comes to after the calls before it. -/
structure Captured (a : List Call) (c : Call) : Prop where
  capturing : c.pre.capturing = true ↔ Capturing a
  started : ∀ config, c.op = .start config → (c.res.status.ok = true ↔ ¬ Capturing a)
  frame : c.op = .pump → Capturing a → ∃ config k, LastCapture a config k ∧
    c.res = { frame := if (latest setsFrameCallback a).getD false then some (frameAt k) else none }
  /-- A cursor belongs to a pump that began in a capture, though that may have been stopped. -/
  cursor : c.op = .deliverCursor → cursors a < pumps a ∧ ∃ config k, LastCapture a config k ∧
    c.res = if (latest setsCursorCallback a).getD false && config.captureCursor then
      match position (.ofNat k) with
      | some place => { cursor := some (cursorAt place k) }
      | none => { returns := false }
    else {}
  ended : c.op = .advance → advances a < cursors a
  /-- Nothing else is delivered, and everything else returns. -/
  quiet : (c.op = .pump → ¬ Capturing a) → c.op ≠ .deliverCursor →
    c.res.returns = true ∧ c.res.frame = none ∧ c.res.cursor = none

/-- What holds of all captures. -/
structure Captures : Prop where
  captured : ∀ us, Along Captured (execAll us {}).1
  /-- Every pump that began in a capture has been taken to its end. -/
  taken : ∀ us s, (execAll us {}).2 = some s →
    pumps (execAll us {}).1 = cursors (execAll us {}).1 ∧
      cursors (execAll us {}).1 = advances (execAll us {}).1
  stuck : ∀ us, (execAll us {}).2 = none ↔ ∃ c ∈ (execAll us {}).1, c.res.returns = false
  /-- A place is not found only if it is looked for for ever. -/
  spinning : ∀ frameIndex, position frameIndex = none ↔ Spinning frameIndex
  placed : ∀ k < 2 ^ 56, ¬ Spinning (.ofNat k)
  /-- The pictures of a capture come again after 64 frames, and not before. -/
  changing : ∀ k m, (frameAt k).cpuPixels = (frameAt m).cpuPixels ↔ k % 64 = m % 64
  whole : ∀ k, (frameAt k).cpuPixels.length =
    (frameAt k).size.width.toNat * (frameAt k).size.height.toNat * 4

variable {s : StubCapturer} {h a : List Call} {c : Call} {op : Op} {config : CaptureConfig}
  {k m d e : ℕ}

theorem toUInt8_and (x : UInt32) : (x &&& 0xFF).toUInt8 = x.toUInt8 := by
  rw [← UInt8.toNat_inj, UInt32.toNat_toUInt8, UInt32.toNat_toUInt8, UInt32.toNat_and]
  change (x.toNat &&& 2 ^ 8 - 1) % 2 ^ 8 = _
  rw [Nat.and_two_pow_sub_one_eq_mod, Nat.mod_mod]

theorem length_flatMap_const {α β : Type*} {l : List α} {f : α → List β} {n : ℕ}
    (hf : ∀ x, (f x).length = n) : (l.flatMap f).length = l.length * n := by
  simp [List.length_flatMap, hf]

theorem length_gradient (width height : ℕ) (shift : UInt32) :
    (gradient width height shift).length = height * (width * 4) := by
  have hrow (y : ℕ) : ((List.range width).flatMap fun x =>
      pixel shift (.ofNat x) (.ofNat y)).length = width * 4 := by
    rw [length_flatMap_const (n := 4) fun x => rfl, List.length_range]
  unfold gradient
  rw [length_flatMap_const hrow, List.length_range]

theorem pixel_congr {s t : UInt32} (hst : s.toUInt8 = t.toUInt8) (x y : UInt32) :
    pixel s x y = pixel t x y := by
  unfold pixel
  simp only [toUInt8_and, UInt32.toUInt8_add, hst]

/-- The picture is in the lowest byte of the shift, which is its first byte. -/
theorem gradient_eq_iff {width height : ℕ} (hw : 0 < width) (hh : 0 < height) {s t : UInt32} :
    gradient width height s = gradient width height t ↔ s.toUInt8 = t.toUInt8 := by
  obtain ⟨width, rfl⟩ := Nat.exists_eq_add_one.mpr hw
  obtain ⟨height, rfl⟩ := Nat.exists_eq_add_one.mpr hh
  have hhead (s : UInt32) : (gradient (width + 1) (height + 1) s).head? = some s.toUInt8 := by
    unfold gradient
    simp only [List.range_succ_eq_map, List.flatMap_cons]
    unfold pixel
    rw [List.cons_append, List.cons_append, List.head?_cons, toUInt8_and]
    simp
  constructor
  · intro heq
    have hheads := congrArg List.head? heq
    rw [hhead, hhead, Option.some.injEq] at hheads
    exact hheads
  · intro hst
    unfold gradient
    simp only [pixel_congr hst]

theorem cpuPixels_frameAt (k : ℕ) :
    (frameAt k).cpuPixels = gradient kStubWidth kStubHeight (.ofNat (4 * k)) := by
  unfold frameAt
  dsimp only

theorem changing (k m : ℕ) :
    (frameAt k).cpuPixels = (frameAt m).cpuPixels ↔ k % 64 = m % 64 := by
  rw [cpuPixels_frameAt, cpuPixels_frameAt, gradient_eq_iff (by decide) (by decide),
    ← UInt8.toNat_inj, UInt32.toNat_toUInt8, UInt32.toNat_toUInt8, UInt32.toNat_ofNat',
    UInt32.toNat_ofNat']
  omega

theorem capturing_snoc :
    Capturing (h ++ [c]) ↔ (begins c).isSome = true ∨ c.op ≠ .stop ∧ Capturing h := since_snoc

theorem lastCapture_snoc : LastCapture (h ++ [c]) config k ↔ (begins c = some config ∧ k = 0) ∨
    begins c = none ∧ ∃ m, LastCapture h config m ∧ k = m + if c.op = .advance then 1 else 0 := by
  constructor
  · rintro ⟨a, d, b, hs, hd, hb, rfl⟩
    rcases snoc_eq_append_cons hs with ⟨rfl, rfl, rfl⟩ | ⟨b', rfl, rfl⟩
    · exact .inl ⟨hd, rfl⟩
    · refine .inr ⟨hb c (by simp), _, ⟨a, d, b', rfl, hd, fun e he => hb e (by simp [he]), rfl⟩, ?_⟩
      simp [List.countP_append, List.countP_singleton]
  · rintro (⟨hc, rfl⟩ | ⟨hnone, m, ⟨a, d, b, rfl, hd, hb, rfl⟩, rfl⟩)
    · exact ⟨h, c, [], rfl, hc, by simp, rfl⟩
    · refine ⟨a, d, b ++ [c], by simp, hd, ?_, ?_⟩
      · intro e he
        rcases List.mem_append.mp he with he | he
        · exact hb e he
        · rw [List.mem_singleton.mp he]
          exact hnone
      · simp [List.countP_append, List.countP_singleton]

theorem not_lastCapture_nil : ¬ LastCapture [] config k := by
  rintro ⟨a, c, b, hs, -⟩
  simp at hs

/-- Once a capture was started there is a last one. -/
theorem exists_lastCapture_snoc
    (hk : (∃ config k, LastCapture h config k) ∨ (begins c).isSome = true) :
    ∃ config k, LastCapture (h ++ [c]) config k := by
  cases hc : begins c with
  | some config => exact ⟨config, 0, lastCapture_snoc.mpr (.inl ⟨hc, rfl⟩)⟩
  | none =>
    rw [hc] at hk
    obtain ⟨config, k, hk⟩ := hk.resolve_right (by simp)
    exact ⟨config, _, lastCapture_snoc.mpr (.inr ⟨hc, k, hk, rfl⟩)⟩

theorem Capturing.exists_lastCapture (hc : Capturing h) : ∃ config k, LastCapture h config k := by
  induction h using List.reverseRecOn with
  | nil => exact absurd hc since_nil
  | append_singleton h c ih =>
    refine exists_lastCapture_snoc ?_
    rcases capturing_snoc.mp hc with hc | ⟨-, hc⟩
    · exact .inr hc
    · exact .inl (ih hc)

theorem start_of_capturing (config : CaptureConfig) (hs : s.capturing = true) :
    s.start config = (.error .invalidArgument "already capturing", s) := by
  unfold start
  rw [if_pos hs]

theorem start_of_not_capturing (config : CaptureConfig) (hs : s.capturing = false) :
    s.start config =
      (.success, { s with config := config, capturing := true, frameIndex := 0 }) := by
  unfold start
  rw [if_neg (by simp [hs])]

theorem begins_start (config : CaptureConfig) (s : StubCapturer) :
    begins (call step s (.start config)) = if s.capturing then none else some config := by
  cases hs : s.capturing with
  | true => simp [begins, step, start_of_capturing config hs, Status.ok, Status.error]
  | false => simp [begins, step, start_of_not_capturing config hs, Status.ok, Status.success]

/-- The capture that the calls tell of is the one the capturer is in. -/
structure Underway (h : List Call) (s : StubCapturer) : Prop where
  capturing : s.capturing = true ↔ Capturing h
  capture : ∀ config k, LastCapture h config k → s.config = config ∧ s.frameIndex = .ofNat k
  frameCb : s.frameCb = (latest setsFrameCallback h).getD false
  cursorCb : s.cursorCb = (latest setsCursorCallback h).getD false

/-- A step that neither starts a capture nor ends it or its frame leaves it alone. -/
theorem Underway.congr {s' : StubCapturer} (hu : Underway h s) (hbegins : begins c = none)
    (hstop : c.op ≠ .stop) (hadvance : c.op ≠ .advance) (hcapturing : s'.capturing = s.capturing)
    (hconfig : s'.config = s.config) (hindex : s'.frameIndex = s.frameIndex)
    (hframe : s'.frameCb = ((setsFrameCallback c).or (latest setsFrameCallback h)).getD false)
    (hcursor : s'.cursorCb = ((setsCursorCallback c).or (latest setsCursorCallback h)).getD false) :
    Underway (h ++ [c]) s' := by
  refine ⟨?_, ?_, by rwa [latest_snoc], by rwa [latest_snoc]⟩
  · rw [hcapturing, hu.capturing, capturing_snoc]
    simp [hbegins, hstop]
  · intro config k hk
    rw [lastCapture_snoc] at hk
    obtain ⟨-, m, hm, rfl⟩ := hk.resolve_left (by simp [hbegins])
    rw [if_neg hadvance, Nat.add_zero, hconfig, hindex]
    exact hu.capture config m hm

theorem step_deliverCursor (s : StubCapturer) : (step s .deliverCursor).2 = s := by
  unfold step
  dsimp only
  split <;> rfl

theorem step_pump (s : StubCapturer) : (step s .pump).2 = s := by
  unfold step
  dsimp only
  split <;> rfl

theorem underway_run (hr : Run step {} h s) : Underway h s := by
  induction hr with
  | nil => exact ⟨by simp [Capturing], fun _ _ hk => absurd hk not_lastCapture_nil, rfl, rfl⟩
  | @snoc h s hr op ih =>
    cases op with
    | setFrameCallback cb =>
      exact ih.congr rfl (by simp) (by simp) rfl rfl rfl rfl ih.cursorCb
    | setCursorCallback cb =>
      exact ih.congr rfl (by simp) (by simp) rfl rfl rfl ih.frameCb rfl
    | start config =>
      have hbegins := begins_start config s
      cases hs : s.capturing with
      | true =>
        rw [hs, if_pos rfl] at hbegins
        simp only [step, start_of_capturing config hs]
        exact ih.congr hbegins (by simp) (by simp) rfl rfl rfl ih.frameCb ih.cursorCb
      | false =>
        rw [hs, if_neg (by simp)] at hbegins
        simp only [step, start_of_not_capturing config hs]
        refine ⟨?_, ?_, ?_, ?_⟩
        · exact iff_of_true rfl (capturing_snoc.mpr (.inl (by simp [hbegins])))
        · intro config' k hk
          rw [lastCapture_snoc, hbegins] at hk
          rcases hk with ⟨heq, rfl⟩ | ⟨hnone, -⟩
          · exact ⟨Option.some.inj heq, rfl⟩
          · cases hnone
        · rw [latest_snoc]
          exact ih.frameCb
        · rw [latest_snoc]
          exact ih.cursorCb
    | stop =>
      refine ⟨iff_of_false (by simp [step, stop]) ?_, ?_, ?_, ?_⟩
      · rw [capturing_snoc]
        simp [begins]
      · intro config k hk
        rw [lastCapture_snoc] at hk
        obtain ⟨-, m, hm, hkm⟩ := hk.resolve_left (by simp [begins])
        rw [hkm]
        exact ih.capture config m hm
      · rw [latest_snoc]
        exact ih.frameCb
      · rw [latest_snoc]
        exact ih.cursorCb
    | pump =>
      rw [step_pump]
      exact ih.congr rfl (by simp) (by simp) rfl rfl rfl ih.frameCb ih.cursorCb
    | deliverCursor =>
      rw [step_deliverCursor]
      exact ih.congr rfl (by simp) (by simp) rfl rfl rfl ih.frameCb ih.cursorCb
    | advance =>
      refine ⟨?_, ?_, ?_, ?_⟩
      · rw [capturing_snoc]
        simpa [begins, step] using ih.capturing
      · intro config k hk
        rw [lastCapture_snoc] at hk
        obtain ⟨-, m, hm, hkm⟩ := hk.resolve_left (by simp [begins])
        obtain ⟨hconfig, hindex⟩ := ih.capture config m hm
        refine ⟨hconfig, ?_⟩
        show s.frameIndex + 1 = .ofNat k
        rw [hkm, hindex, UInt64.ofNat_add]
        rfl
      · rw [latest_snoc]
        exact ih.frameCb
      · rw [latest_snoc]
        exact ih.cursorCb

theorem timestamp_of_index (hs : s.frameIndex = .ofNat k) :
    s.frameIndex * kFrameIntervalUs = .ofNat (16666 * k) := by
  rw [hs, Nat.mul_comm, UInt64.ofNat_mul]
  rfl

/-- What a capturer draws is decided by the number of its frame. -/
theorem deliverFrame_of_index (hs : s.frameIndex = .ofNat k) :
    s.deliverFrame = if s.frameCb then some (frameAt k) else none := by
  have hshift : (s.frameIndex * 4).toUInt32 = .ofNat (4 * k) := by
    rw [hs, Nat.mul_comm, UInt32.ofNat_mul, UInt64.toUInt32_mul, UInt64.toUInt32_ofNat']
    rfl
  unfold deliverFrame frameAt
  rw [timestamp_of_index hs, hshift]
  cases s.frameCb <;> rfl

theorem deliverCursor_of_index (hs : s.frameIndex = .ofNat k) :
    s.deliverCursor = if s.cursorCb && s.config.captureCursor then
      (position (.ofNat k)).map fun place => some (cursorAt place k) else some none := by
  unfold deliverCursor cursorAt
  rw [timestamp_of_index hs, hs]
  cases s.cursorCb
  · rfl
  cases s.config.captureCursor
  · rfl
  cases position (.ofNat k) with
  | none => rfl
  | some place =>
    by_cases hfirst : UInt64.ofNat k = 0
    · simp only [hfirst]
      rfl
    · simp only [if_neg hfirst]
      rfl

/-- Within a run, `d` pumps that began in a capture wait for their frame's callback, and `e` for
that of their cursor. -/
structure Inside (d e : ℕ) (h : List Call) (s : StubCapturer) : Prop where
  run : Run step {} h s
  pumps : pumps h = cursors h + d
  cursors : cursors h = advances h + e
  began : 0 < d + e → ∃ config k, LastCapture h config k

theorem pumps_snoc :
    pumps (h ++ [c]) = pumps h + if c.op = .pump ∧ c.pre.capturing then 1 else 0 := by
  simp [StubCapturer.pumps, List.countP_append, List.countP_singleton]

theorem cursors_snoc :
    cursors (h ++ [c]) = cursors h + if c.op = .deliverCursor then 1 else 0 := by
  simp [StubCapturer.cursors, List.countP_append, List.countP_singleton]

theorem advances_snoc : advances (h ++ [c]) = advances h + if c.op = .advance then 1 else 0 := by
  simp [advances, List.countP_append, List.countP_singleton]

/-- A call of the owner or of a callback, other than a pump. -/
theorem Inside.snoc_of_call (hi : Inside d e h s) (hpump : op ≠ .pump)
    (hcursor : op ≠ .deliverCursor) (hadvance : op ≠ .advance) :
    Inside d e (h ++ [call step s op]) (step s op).2 where
  run := hi.run.snoc op
  pumps := by
    rw [pumps_snoc, cursors_snoc, hi.pumps]
    simp [hpump, hcursor]
  cursors := by
    rw [advances_snoc, cursors_snoc, hi.cursors]
    simp [hadvance, hcursor]
  began hpos := exists_lastCapture_snoc (.inl (hi.began hpos))

theorem Inside.capturing (hi : Inside d e h s) : s.capturing = true ↔ Capturing h :=
  (underway_run hi.run).capturing

theorem captured_of_call (hi : Inside d e h s) (hpump : op ≠ .pump)
    (hcursor : op ≠ .deliverCursor) (hadvance : op ≠ .advance) : Captured h (call step s op) where
  capturing := hi.capturing
  started config hop := by
    cases hop
    rw [← hi.capturing]
    cases hs : s.capturing with
    | true => simp [step, start_of_capturing config hs, Status.ok, Status.error]
    | false => simp [step, start_of_not_capturing config hs, Status.ok, Status.success]
  frame hop := absurd hop hpump
  cursor hop := absurd hop hcursor
  ended hop := absurd hop hadvance
  quiet _ _ := by
    cases op with
    | pump => exact absurd rfl hpump
    | deliverCursor => exact absurd rfl hcursor
    | _ => exact ⟨rfl, rfl, rfl⟩

theorem captured_pump (hi : Inside d e h s) : Captured h (call step s .pump) where
  capturing := hi.capturing
  started config hop := by cases hop
  frame _ hc := by
    have hu := underway_run hi.run
    obtain ⟨config, k, hk⟩ := hc.exists_lastCapture
    obtain ⟨-, hindex⟩ := hu.capture config k hk
    refine ⟨config, k, hk, ?_⟩
    rw [call_res, step, if_pos (hu.capturing.mpr hc), deliverFrame_of_index hindex, hu.frameCb]
  cursor hop := by cases hop
  ended hop := by cases hop
  quiet hidle _ := by
    have hs : ¬ s.capturing = true := fun hs => hidle rfl (hi.capturing.mp hs)
    rw [call_res, step, if_neg hs]
    exact ⟨rfl, rfl, rfl⟩

theorem captured_deliverCursor (hi : Inside (d + 1) e h s) :
    Captured h (call step s .deliverCursor) where
  capturing := hi.capturing
  started config hop := by cases hop
  frame hop := by cases hop
  cursor _ := by
    have hu := underway_run hi.run
    obtain ⟨config, k, hk⟩ := hi.began (by omega)
    obtain ⟨hconfig, hindex⟩ := hu.capture config k hk
    refine ⟨by rw [hi.pumps]; omega, config, k, hk, ?_⟩
    rw [call_res, step, deliverCursor_of_index hindex, hu.cursorCb, hconfig]
    cases (latest setsCursorCallback h).getD false && config.captureCursor with
    | false => rfl
    | true => cases position (.ofNat k) <;> rfl
  ended hop := by cases hop
  quiet _ hop := absurd rfl hop

theorem captured_advance (hi : Inside d (e + 1) h s) : Captured h (call step s .advance) where
  capturing := hi.capturing
  started config hop := by cases hop
  frame hop := by cases hop
  cursor hop := by cases hop
  ended _ := by
    rw [hi.cursors]
    omega
  quiet _ _ := ⟨rfl, rfl, rfl⟩

/-- What a routine is to do: it keeps count of the pumps, and its calls are as they should be. -/
abbrev Keeps (d e : ℕ) (r : Routine StubCapturer Op Reply) : Prop :=
  Meets Reply.returns (Inside d e) r Captured (Inside d e)

theorem keeps_call (hpump : op ≠ .pump) (hcursor : op ≠ .deliverCursor) (hadvance : op ≠ .advance) :
    Keeps d e (act op) :=
  meets_one op (fun _ _ hi => captured_of_call hi hpump hcursor hadvance)
    fun _ _ hi _ => hi.snoc_of_call hpump hcursor hadvance

theorem meets_deliverCursor : Meets Reply.returns (Inside (d + 1) e) (act .deliverCursor) Captured
    (Inside d (e + 1)) := by
  refine meets_one _ (fun h s hi => captured_deliverCursor hi) fun h s hi _ => ?_
  refine ⟨hi.run.snoc _, ?_, ?_, fun _ => exists_lastCapture_snoc (.inl (hi.began (by omega)))⟩
  · rw [pumps_snoc, cursors_snoc, hi.pumps]
    simp
    omega
  · rw [cursors_snoc, advances_snoc, hi.cursors]
    simp
    omega

theorem meets_advance : Meets Reply.returns (Inside d (e + 1)) (act .advance) Captured
    (Inside d e) := by
  refine meets_one _ (fun h s hi => captured_advance hi) fun h s hi _ => ?_
  refine ⟨hi.run.snoc _, ?_, ?_, fun _ => exists_lastCapture_snoc (.inl (hi.began (by omega)))⟩
  · rw [pumps_snoc, cursors_snoc, hi.pumps]
    simp
  · rw [cursors_snoc, advances_snoc, hi.cursors]
    simp
    omega

/-- The first part of a pump. Only in a capture is there more of it. -/
theorem meets_act_pump : Meets Reply.returns (Inside d e) (act .pump) Captured
    fun h s => Inside (if s.capturing then d + 1 else d) e h s := by
  refine meets_one _ (fun h s hi => captured_pump hi) fun h s hi _ => ?_
  have hstate := step_pump s
  have hrun : Run step {} (h ++ [call step s .pump]) (step s .pump).2 := hi.run.snoc .pump
  rw [hstate] at hrun ⊢
  refine ⟨hrun, ?_, ?_, ?_⟩
  · rw [pumps_snoc, cursors_snoc, hi.pumps]
    cases hs : s.capturing with
    | true =>
      simp [hs]
      omega
    | false => simp [hs]
  · rw [cursors_snoc, advances_snoc, hi.cursors]
    simp
  · intro hpos
    refine exists_lastCapture_snoc (.inl ?_)
    cases hs : s.capturing with
    | true => exact (hi.capturing.mp hs).exists_lastCapture
    | false => exact hi.began (by simpa [hs] using hpos)

/-- Whatever the callbacks do, a pump keeps count. -/
theorem keeps_pump {inFrame inCursor : Routine StubCapturer Op Reply}
    (hframe : Keeps (d + 1) e inFrame) (hcursor : Keeps d (e + 1) inCursor) :
    Keeps d e (pump inFrame inCursor) := by
  have hframe' : Keeps (d + 1) e (inFrame.when (·.frameCb)) :=
    Meets.when (hframe.imp (fun _ _ hi => hi.1) fun _ _ hi => hi) fun _ _ hi _ => hi
  have hcursor' :
      Keeps d (e + 1) (inCursor.when fun c => c.cursorCb && c.config.captureCursor) :=
    Meets.when (hcursor.imp (fun _ _ hi => hi.1) fun _ _ hi => hi) fun _ _ hi _ => hi
  have hrest := hframe'.andThen (meets_deliverCursor.andThen (hcursor'.andThen meets_advance))
  refine meets_act_pump.andThen (Meets.when (hrest.imp ?_ fun _ _ hi => hi) ?_)
  · rintro h s ⟨hi, hs⟩
    rwa [if_pos hs] at hi
  · intro h s hi hs
    rwa [if_neg (by simp [hs])] at hi

mutual

theorem keeps_exec : ∀ (u : Usage) (d e : ℕ), Keeps d e (exec u)
  | .setFrameCallback _, _, _ => keeps_call (by simp) (by simp) (by simp)
  | .setCursorCallback _, _, _ => keeps_call (by simp) (by simp) (by simp)
  | .start _, _, _ => keeps_call (by simp) (by simp) (by simp)
  | .stop, _, _ => keeps_call (by simp) (by simp) (by simp)
  | .pump inFrame inCursor, d, e =>
    keeps_pump (keeps_execAll inFrame (d + 1) e) (keeps_execAll inCursor d (e + 1))

theorem keeps_execAll : ∀ (us : List Usage) (d e : ℕ), Keeps d e (execAll us)
  | [], _, _ => meets_skip fun _ _ hi => hi
  | u :: us, d, e => (keeps_exec u d e).andThen (keeps_execAll us d e)

end

theorem inside_start : Inside 0 0 [] {} :=
  ⟨.nil, rfl, rfl, fun hpos => absurd hpos (Nat.lt_irrefl 0)⟩

theorem captures : Captures where
  captured us := (keeps_execAll us 0 0).along [] {} inside_start
  taken us s hs := by
    have hi := (keeps_execAll us 0 0).ends [] {} inside_start s hs
    exact ⟨hi.pumps, hi.cursors⟩
  stuck us := (keeps_execAll us 0 0).stuck {}
  spinning := position_eq_none_iff
  placed k hk := not_spinning (by rw [UInt64.toNat_ofNat']; omega)
  changing := changing
  whole k := by
    have hwidth : (frameAt k).size.width.toNat = kStubWidth := rfl
    have hheight : (frameAt k).size.height.toNat = kStubHeight := rfl
    rw [cpuPixels_frameAt, length_gradient, hwidth, hheight]
    ring

end StubCapturer
end Redesk.Capture
