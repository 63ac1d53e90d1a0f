import Redesk.Capture.ScreenCapture

/-! The preview of the local screen: frames come on the thread of the capturer, and are shown when
the thread of the interface gets to them. It is the system that sees to it that no frame comes
before a start is through or after a stop, when the capturer is gone. -/
namespace Redesk.Ui
open Machine Capture

/-- An image with rows of four bytes for each pixel. -/
structure QImage where
  width : ℕ := 0
  height : ℕ := 0
  bits : Bytes := []
  deriving DecidableEq, Repr

/-- What the frame callback makes of a frame: nothing of an empty one, and the null image of one
whose sizes are not positive as an `int`. A copy from past the pixels and a product past an `int`
have no value. -/
def imageOf (f : VideoFrame) : Option (Option QImage) :=
  if f.cpuPixels = [] ∨ f.size.width = 0 ∨ f.size.height = 0 then some none
  else
    let width := f.size.width.toInt32.toInt
    let height := f.size.height.toInt32.toInt
    if width * 4 < -2 ^ 31 ∨ 2 ^ 31 ≤ width * 4 then none
    else if width ≤ 0 ∨ height ≤ 0 then some (some {})
    else do
      let bits ← Raster.pack f.cpuPixels (width.toNat * 4) (width.toNat * 4) height.toNat
      return some ⟨width.toNat, height.toNat, bits⟩

/-- The capturer of the system, or the one of the default build that nobody pumps. -/
inductive Capturer where
  | native (c : SckCapturer)
  | stub (c : StubCapturer)

namespace Capturer

/-- `CreateNativeCapturer`, or else `createCapturer`. -/
def create (realBackends : Bool) : Capturer := if realBackends then .native {} else .stub {}

def setFrameCallback : Capturer → Capturer
  | .native c => .native { c with frameCb := true }
  | .stub c => .stub { c with frameCb := true }

def start (config : CaptureConfig) (a : ScreenAnswers) : Capturer → Status × Capturer
  | .native c => ((c.start a).1, .native (c.start a).2)
  | .stub c => ((c.start config).1, .stub (c.start config).2)

end Capturer

structure LocalScreenSource where
  capturer : Option Capturer := none
  /-- The calls of `deliverFrame` that the event loop has not made yet. -/
  queued : List QImage := []
  lastFrame : QImage := {}
  statusText : String := "Idle"
  active : Bool := false
  usingRealBackend : Bool := false

namespace LocalScreenSource

inductive Signal where
  | activeChanged | statusTextChanged | frameArrived
  deriving DecidableEq, Repr

def setStatus (s : LocalScreenSource) (text : String) : List Signal × LocalScreenSource :=
  if s.statusText = text then ([], s) else ([.statusTextChanged], { s with statusText := text })

def permissionText : String :=
  "Screen Recording permission needed — grant REDesk in System Settings ▸ Privacy & Security ▸ " ++
    "Screen Recording, then retry."

def captureText (realBackends : Bool) : String :=
  if realBackends then "Capturing real screen" else "Capturing synthetic test pattern (stub)"

def failureText (st : Status) : String :=
  if st.code = .permissionDenied then permissionText else st.message

def start (realBackends : Bool) (a : ScreenAnswers) (s : LocalScreenSource) :
    List Signal × LocalScreenSource :=
  if s.active then ([], s)
  else
    let s := { s with usingRealBackend := realBackends }
    let config : CaptureConfig := {
      targetFps := 60
      captureCursor := true
      preferredFormat := .bgra8 }
    let (st, capturer) := (Capturer.create realBackends).setFrameCallback.start config a
    if !st.ok then
      let (signals, s) := s.setStatus (failureText st)
      (signals, { s with capturer := none })
    else
      let (signals, s) := { s with capturer := some capturer, active := true }.setStatus
        (captureText realBackends)
      (signals ++ [.activeChanged], s)

/-- The capturer is stopped before it goes. -/
def stop (s : LocalScreenSource) : List Signal × LocalScreenSource :=
  let s := { s with capturer := none }
  let (signals, s) := if s.active then ([.activeChanged], { s with active := false }) else ([], s)
  let (signals', s) := s.setStatus "Idle"
  (signals ++ signals', s)

/-- A sample of the system's stream reaches the callback, which queues an image; `none` stands for a
read or a copy past a buffer, or an overflow. Without a capturer there is no stream that it could
come from. -/
def sample (s : LocalScreenSource) (px : Option PixelBuffer) : Option LocalScreenSource :=
  match s.capturer with
  | some (.native c) => do
    let some f ← c.onSample px | return s
    let some image ← imageOf f | return s
    return { s with queued := s.queued ++ [image] }
  | _ => some s

/-- The event loop makes the next queued call. -/
def deliverFrame (s : LocalScreenSource) : List Signal × LocalScreenSource :=
  match s.queued with
  | [] => ([], s)
  | image :: queued => ([.frameArrived], { s with lastFrame := image, queued := queued })

inductive Op where
  | start (a : ScreenAnswers)
  | stop
  | sample (px : Option PixelBuffer)
  | deliverFrame

/-- The signals that a call emits, and whether it does something without a defined result. -/
structure Reply where
  signals : List Signal := []
  undefinedResult : Bool := false
  deriving DecidableEq, Repr

def step (realBackends : Bool) (s : LocalScreenSource) : Op → Reply × LocalScreenSource
  | .start a => ({ signals := (s.start realBackends a).1 }, (s.start realBackends a).2)
  | .stop => ({ signals := s.stop.1 }, s.stop.2)
  | .sample px =>
    match s.sample px with
    | some s' => ({}, s')
    | none => ({ undefinedResult := true }, s)
  | .deliverFrame => ({ signals := s.deliverFrame.1 }, s.deliverFrame.2)

abbrev Call := Machine.Call LocalScreenSource Op Reply

/-- A start that nothing stands in the way of; the default build has nothing to ask. -/
def Starts (realBackends : Bool) (c : Call) : Prop :=
  ∃ a, c.op = .start a ∧ (realBackends = true → a.Succeed)

/-- The picture of a sample that comes while the screen is captured, if it is not empty. -/
def picture (realBackends : Bool) (s : LocalScreenSource) : Option PixelBuffer → Option PixelBuffer
  | some px =>
    if realBackends ∧ s.active ∧ px.width ≠ 0 ∧ px.height ≠ 0 then some px else none
  | none => none

def taken (realBackends : Bool) (c : Call) : Option PixelBuffer :=
  match c.op with
  | .sample px => c.pre.picture realBackends px
  | _ => none

/-- Four times the width overflows as an `int`. -/
def Overflows (px : PixelBuffer) : Prop :=
  2 ^ 29 ≤ px.width.toNat ∧ px.width.toNat < 2 ^ 32 - 2 ^ 29

/-- The sizes that an `int` can count. -/
def Fits (px : PixelBuffer) : Prop := px.width.toNat < 2 ^ 29 ∧ px.height.toNat < 2 ^ 31

/-- The image that a call makes the current one. -/
def displayed (c : Call) : List QImage :=
  match c.op with
  | .deliverFrame => c.pre.queued.take 1
  | _ => []

/-- The image is the picture, without the padding. -/
structure Depicts (px : PixelBuffer) (image : QImage) : Prop where
  width : image.width = px.width.toNat
  height : image.height = px.height.toNat
  length : image.bits.length = px.height.toNat * (px.width.toNat * 4)
  byte : ∀ y < px.height.toNat, ∀ x < px.width.toNat * 4,
    image.bits[y * (px.width.toNat * 4) + x]? = px.byteAt y x

/-- What a call tells: the properties that are read again when its signals are emitted are those
that it has changed. -/
structure Told (c : Call) : Prop where
  active : .activeChanged ∈ c.res.signals ↔ c.post.active ≠ c.pre.active
  statusText : .statusTextChanged ∈ c.res.signals ↔ c.post.statusText ≠ c.pre.statusText
  lastFrame : .frameArrived ∈ c.res.signals ↔ displayed c ≠ []
  /-- Only a start that fails changes the backend without a signal. -/
  backend : c.post.usingRealBackend ≠ c.pre.usingRealBackend → .activeChanged ∈ c.res.signals ∨
    ∃ a, c.op = .start a ∧ ¬ a.Succeed

/-- What holds of the preview in every run. -/
structure Previewed (realBackends : Bool) (h : List Call) (s : LocalScreenSource) : Prop where
  safe : (∀ c ∈ h, c.res.undefinedResult = false) ↔
    ∀ px ∈ h.filterMap (taken realBackends), ¬ Overflows px
  told : ∀ c ∈ h, Told c
  active : s.active = true ↔ Since (Starts realBackends) (fun c => c.op = .stop) h
  statusText : s.statusText = captureText realBackends ↔ s.active = true
  /-- All pictures are shown or still to be shown, in their order and once each; the default build
  has none. -/
  frames : (∀ px ∈ h.filterMap (taken realBackends), Fits px) →
    List.Forall₂ Depicts (h.filterMap (taken realBackends)) (h.flatMap displayed ++ s.queued)
  lastFrame : s.lastFrame = ((h.flatMap displayed).getLast?).getD {}

variable {realBackends : Bool} {s : LocalScreenSource} {h : List Call} {c : Call}
  {px : PixelBuffer} {f : VideoFrame}

theorem Fits.not_overflows (hfits : Fits px) : ¬ Overflows px :=
  fun hover => absurd hover.1 hfits.1.not_ge

theorem toInt_toInt32 (n : UInt32) :
    n.toInt32.toInt = if n.toNat < 2 ^ 31 then (n.toNat : ℤ) else n.toNat - 2 ^ 32 := by
  have hn : n.toInt32.toInt = if 2 * n.toNat < 2 ^ 32 then (n.toNat : ℤ) else n.toNat - 2 ^ 32 :=
    n.toBitVec.toInt_eq_toNat_cond
  rw [hn]
  split_ifs <;> omega

/-- A frame of a picture becomes an image, if nothing overflows, and the image of it if the sizes
can be counted. -/
theorem imageOf_shows (hw : px.width ≠ 0) (hh : px.height ≠ 0) (hshows : Shows px f) :
    Overflows px ∧ imageOf f = none ∨ ¬ Overflows px ∧ ∃ image, imageOf f = some (some image) ∧
      (Fits px → Depicts px image) := by
  have hw' : 0 < px.width.toNat := Nat.pos_of_ne_zero fun h => hw (UInt32.toNat_inj.mp h)
  have hh' : 0 < px.height.toNat := Nat.pos_of_ne_zero fun h => hh (UInt32.toNat_inj.mp h)
  have hne : f.cpuPixels ≠ [] := by
    rw [← List.length_pos_iff, hshows.length]
    positivity
  have hwlt := px.width.toNat_lt
  have hhlt := px.height.toNat_lt
  have hwidth := toInt_toInt32 px.width
  have hheight := toInt_toInt32 px.height
  unfold imageOf
  rw [hshows.size, if_neg (by simp [hne, hw, hh])]
  dsimp only
  by_cases hover : Overflows px
  · left
    refine ⟨hover, if_pos ?_⟩
    unfold Overflows at hover
    split_ifs at hwidth <;> omega
  right
  refine ⟨hover, ?_⟩
  unfold Overflows at hover
  rw [if_neg (by split_ifs at hwidth <;> omega)]
  by_cases hfits : Fits px
  · unfold Fits at hfits
    rw [if_pos (by omega)] at hwidth hheight
    have hpack := Raster.pack_self hshows.length.ge
    have hall : f.cpuPixels.take (px.height.toNat * (px.width.toNat * 4)) = f.cpuPixels :=
      List.take_of_length_le hshows.length.le
    rw [hall] at hpack
    refine ⟨⟨px.width.toNat, px.height.toNat, f.cpuPixels⟩, ?_,
      fun _ => ⟨rfl, rfl, hshows.length, hshows.byte⟩⟩
    rw [hwidth, hheight, if_neg (by omega), Int.toNat_natCast, Int.toNat_natCast, hpack]
    rfl
  · refine ⟨{}, if_pos ?_, fun h => absurd h hfits⟩
    unfold Fits at hfits
    split_ifs at hwidth hheight <;> omega

theorem imageOf_empty (hsize : f.size = ⟨px.width, px.height⟩)
    (he : ¬ (px.width ≠ 0 ∧ px.height ≠ 0)) : imageOf f = some none := by
  unfold imageOf
  rw [hsize, if_pos]
  dsimp only
  tauto

/-- The signal of the status, if a text is new. -/
def statusSignals (s : LocalScreenSource) (text : String) : List Signal :=
  if s.statusText = text then [] else [.statusTextChanged]

theorem setStatus_eq (s : LocalScreenSource) (text : String) :
    s.setStatus text = (s.statusSignals text, { s with statusText := text }) := by
  unfold setStatus statusSignals
  split
  · rename_i heq
    subst heq
    rfl
  · rfl

@[simp] theorem mem_statusSignals {signal : Signal} {text : String} :
    signal ∈ s.statusSignals text ↔ signal = .statusTextChanged ∧ s.statusText ≠ text := by
  unfold statusSignals
  split <;> simp_all

/-- A capturer of the build, with its callback. -/
def Ready (realBackends : Bool) : Capturer → Prop
  | .native c => realBackends = true ∧ c.frameCb = true
  | .stub _ => realBackends = false

theorem capturer_start_cases (realBackends : Bool) (config : CaptureConfig) (a : ScreenAnswers)
    {st : Status} {capturer : Capturer}
    (hr : (Capturer.create realBackends).setFrameCallback.start config a = (st, capturer)) :
    st.ok = true ∧ Ready realBackends capturer ∧ (realBackends = true → a.Succeed) ∨
      st.ok = false ∧ failureText st ≠ captureText realBackends ∧
        ¬ (realBackends = true → a.Succeed) := by
  cases realBackends with
  | false =>
    obtain ⟨rfl, rfl⟩ := Prod.mk.inj hr
    exact .inl ⟨rfl, rfl, fun h => (Bool.false_ne_true h).elim⟩
  | true =>
    obtain ⟨rfl, rfl⟩ := Prod.mk.inj hr
    rcases SckCapturer.start_cases (c := { frameCb := true }) rfl a with
      ⟨hsucceed, hok, hcb⟩ | ⟨hfail, hres⟩
    · exact .inl ⟨congrArg Status.ok hok, ⟨rfl, hcb⟩, fun _ => hsucceed⟩
    · right
      have hst : (SckCapturer.start { frameCb := true } a).1.ok = false ∧
          failureText (SckCapturer.start { frameCb := true } a).1 ≠ captureText true := by
        rcases hres with hcode | hmem
        · refine ⟨by simp [Status.ok, hcode], ?_⟩
          unfold failureText
          rw [if_pos hcode]
          decide
        · simp only [List.mem_cons, List.not_mem_nil, or_false] at hmem
          rcases hmem with hst | hst | hst <;> rw [hst] <;> decide
      exact ⟨hst.1, hst.2, fun h => hfail (h rfl)⟩

theorem start_of_active {a : ScreenAnswers} (hs : s.active = true) :
    s.start realBackends a = ([], s) := if_pos hs

/-- A start of an inactive preview succeeds if nothing stands in its way, and otherwise says why. -/
theorem start_cases (hs : s.active = false) (realBackends : Bool) (a : ScreenAnswers) :
    (∃ capturer, Ready realBackends capturer ∧ (realBackends = true → a.Succeed) ∧
      s.start realBackends a = (s.statusSignals (captureText realBackends) ++ [.activeChanged],
        { s with
          usingRealBackend := realBackends
          capturer := some capturer
          active := true
          statusText := captureText realBackends })) ∨
    ∃ text, text ≠ captureText realBackends ∧ ¬ (realBackends = true → a.Succeed) ∧
      s.start realBackends a = (s.statusSignals text,
        { s with
          usingRealBackend := realBackends
          capturer := none
          statusText := text }) := by
  unfold start
  rw [if_neg (by simp [hs])]
  dsimp only
  generalize hr : (Capturer.create realBackends).setFrameCallback.start _ a = r
  obtain ⟨st, capturer⟩ := r
  simp only [setStatus_eq]
  rcases capturer_start_cases realBackends _ a hr with ⟨hok, hready, hstarts⟩ | ⟨hok, htext, hfails⟩
  · left
    refine ⟨capturer, hready, hstarts, ?_⟩
    rw [if_neg (by simp [hok])]
    rfl
  · right
    refine ⟨failureText st, htext, hfails, ?_⟩
    rw [if_pos (by simp [hok])]
    rfl

theorem stop_eq (s : LocalScreenSource) : s.stop =
    ((if s.active then [.activeChanged] else []) ++ s.statusSignals "Idle",
      { s with capturer := none, active := false, statusText := "Idle" }) := by
  unfold stop
  simp only [setStatus_eq]
  cases hs : s.active <;> simp [statusSignals]

/-- The capturer is there while the preview is active. -/
structure Holding (realBackends : Bool) (h : List Call) (s : LocalScreenSource) : Prop where
  capturer : s.capturer.isSome = s.active
  ready : ∀ capturer, s.capturer = some capturer → Ready realBackends capturer
  active : s.active = true ↔ Since (Starts realBackends) (fun c => c.op = .stop) h
  statusText : s.statusText = captureText realBackends ↔ s.active = true

theorem captureText_ne_idle : "Idle" ≠ captureText realBackends := by
  cases realBackends <;> decide

/-- A sample changes nothing but what is queued. -/
theorem sample_queued {px : Option PixelBuffer} {s' : LocalScreenSource}
    (hs : s.sample px = some s') : ∃ queued, s' = { s with queued := queued } := by
  unfold LocalScreenSource.sample at hs
  split at hs
  · rename_i c _
    cases hframe : c.onSample px with
    | none => simp [hframe] at hs
    | some frame =>
      cases frame with
      | none => exact ⟨s.queued, by simpa [hframe] using hs.symm⟩
      | some f =>
        cases himage : imageOf f with
        | none => simp [hframe, himage] at hs
        | some image =>
          cases image with
          | none => exact ⟨s.queued, by simpa [hframe, himage] using hs.symm⟩
          | some image =>
            exact ⟨s.queued ++ [image], by simpa [hframe, himage] using hs.symm⟩
  · exact ⟨s.queued, (Option.some.inj hs).symm⟩

theorem since_of_other (realBackends : Bool) (s : LocalScreenSource) (op : Op)
    (hstart : ∀ a, op ≠ .start a) (hstop : op ≠ .stop) :
    Since (Starts realBackends) (fun c => c.op = .stop) (h ++ [call (step realBackends) s op]) ↔
      Since (Starts realBackends) (fun c => c.op = .stop) h := by
  rw [since_snoc]
  simp [Starts, hstart, hstop]

theorem holding_run (hr : Run (step realBackends) {} h s) : Holding realBackends h s := by
  induction hr with
  | nil =>
    refine ⟨rfl, fun _ hc => (by cases hc), iff_of_false (by decide) since_nil, ?_⟩
    exact iff_of_false captureText_ne_idle (by decide)
  | @snoc h s hr op ih =>
    obtain ⟨hcap, hready, hactive, htext⟩ := ih
    cases op with
    | start a =>
      cases hs : s.active with
      | true =>
        simp only [step, start_of_active hs]
        refine ⟨hcap, hready, iff_of_true hs ?_, htext⟩
        rw [since_snoc]
        exact .inr ⟨by simp, hactive.mp hs⟩
      | false =>
        rcases start_cases hs realBackends a with
          ⟨capturer, hcapturer, hstarts, heq⟩ | ⟨text, hne, hfails, heq⟩
        · simp only [step, heq]
          refine ⟨rfl, ?_, iff_of_true rfl ?_, iff_of_true rfl rfl⟩
          · intro capturer' hc
            obtain rfl := Option.some.inj hc
            exact hcapturer
          · rw [since_snoc]
            exact .inl ⟨a, rfl, hstarts⟩
        · simp only [step, heq]
          have hnone : ¬ s.active = true := by simp [hs]
          refine ⟨hs.symm, fun _ hc => (by cases hc), iff_of_false hnone ?_,
            iff_of_false hne hnone⟩
          rw [since_snoc]
          rintro (⟨a', hop, hstarts⟩ | ⟨-, hsince⟩)
          · obtain rfl := Op.start.inj hop
            exact hfails hstarts
          · exact hnone (hactive.mpr hsince)
    | stop =>
      simp only [step, stop_eq]
      refine ⟨rfl, fun _ hc => (by cases hc), iff_of_false Bool.false_ne_true ?_, ?_⟩
      · rw [since_snoc]
        simp [Starts]
      · exact iff_of_false captureText_ne_idle Bool.false_ne_true
    | sample px =>
      have hsame := hactive.trans (since_of_other realBackends s (.sample px) (by simp)
        (by simp)).symm
      cases hsample : s.sample px with
      | none =>
        simp only [step, hsample] at hsame ⊢
        exact ⟨hcap, hready, hsame, htext⟩
      | some s' =>
        obtain ⟨queued, rfl⟩ := sample_queued hsample
        simp only [step, hsample] at hsame ⊢
        exact ⟨hcap, hready, hsame, htext⟩
    | deliverFrame =>
      have hsame := hactive.trans (since_of_other realBackends s .deliverFrame (by simp)
        (by simp)).symm
      simp only [step, deliverFrame]
      split
      · exact ⟨hcap, hready, hsame, htext⟩
      · exact ⟨hcap, hready, hsame, htext⟩

/-- A sample queues an image of its picture, if it has one. -/
theorem sample_cases (hholding : Holding realBackends h s) (sample : Option PixelBuffer) :
    s.picture realBackends sample = none ∧ s.sample sample = some s ∨
      ∃ px, s.picture realBackends sample = some px ∧
        (Overflows px ∧ s.sample sample = none ∨ ¬ Overflows px ∧ ∃ image,
          s.sample sample = some { s with queued := s.queued ++ [image] } ∧
            (Fits px → Depicts px image)) := by
  obtain hc | ⟨capturer, hc⟩ := Option.eq_none_or_eq_some s.capturer
  · have hactive : s.active = false := by
      rw [← hholding.capturer, hc]
      rfl
    refine .inl ⟨?_, ?_⟩
    · cases sample <;> simp [picture, hactive]
    · unfold LocalScreenSource.sample
      rw [hc]
  have hactive : s.active = true := by
    rw [← hholding.capturer, hc]
    rfl
  cases capturer with
  | stub c =>
    have hreal : realBackends = false := hholding.ready _ hc
    refine .inl ⟨?_, ?_⟩
    · cases sample <;> simp [picture, hreal]
    · unfold LocalScreenSource.sample
      rw [hc]
  | native c =>
    obtain ⟨hreal, hcb⟩ : realBackends = true ∧ c.frameCb = true := hholding.ready _ hc
    unfold LocalScreenSource.sample
    rw [hc]
    cases sample with
    | none =>
      refine .inl ⟨rfl, ?_⟩
      simp [SckCapturer.onSample, hcb]
    | some px =>
      obtain ⟨f, hf, hshows⟩ := shows_onSample hcb px
      by_cases hempty : px.width ≠ 0 ∧ px.height ≠ 0
      · refine .inr ⟨px, if_pos ⟨hreal, hactive, hempty⟩, ?_⟩
        rcases imageOf_shows hempty.1 hempty.2 hshows with
          ⟨hover, himage⟩ | ⟨hover, image, himage, hdepicts⟩
        · exact .inl ⟨hover, by simp [hf, himage]⟩
        · exact .inr ⟨hover, image, by simp [hf, himage], hdepicts⟩
      · have himage := imageOf_empty hshows.size hempty
        exact .inl ⟨if_neg fun h => hempty h.2.2, by simp [hf, himage]⟩

/-- The images that a run has made current, and the ones it leaves queued. -/
structure Following (realBackends : Bool) (h : List Call) (s : LocalScreenSource) : Prop where
  frames : (∀ px ∈ h.filterMap (taken realBackends), Fits px) →
    List.Forall₂ Depicts (h.filterMap (taken realBackends)) (h.flatMap displayed ++ s.queued)
  lastFrame : s.lastFrame = ((h.flatMap displayed).getLast?).getD {}

theorem filterMap_taken_snoc (h : List Call) (c : Call) :
    (h ++ [c]).filterMap (taken realBackends) =
      h.filterMap (taken realBackends) ++ (taken realBackends c).toList := by
  cases htaken : taken realBackends c <;> simp [htaken]

/-- A call that neither takes a picture nor shows one. -/
theorem Following.congr {s' : LocalScreenSource} (hf : Following realBackends h s)
    (htaken : taken realBackends c = none) (hdisplayed : displayed c = [])
    (hqueued : s'.queued = s.queued) (hlast : s'.lastFrame = s.lastFrame) :
    Following realBackends (h ++ [c]) s' := by
  have hsame : (h ++ [c]).filterMap (taken realBackends) = h.filterMap (taken realBackends) := by
    rw [filterMap_taken_snoc, htaken, Option.toList_none, List.append_nil]
  refine ⟨?_, ?_⟩
  · rw [hsame, List.flatMap_append, hqueued]
    simpa [hdisplayed] using hf.frames
  · rw [List.flatMap_append, hlast]
    simpa [hdisplayed] using hf.lastFrame

theorem following_run (hr : Run (step realBackends) {} h s) : Following realBackends h s := by
  -- a sample appends to what is queued and a delivery takes its head, so the order stays
  induction hr with
  | nil => exact ⟨fun _ => .nil, rfl⟩
  | @snoc h s hr op hf =>
    have hholding := holding_run hr
    cases op with
    | start a =>
      cases hs : s.active with
      | true =>
        exact hf.congr rfl rfl (by simp only [step, start_of_active hs])
          (by simp only [step, start_of_active hs])
      | false =>
        rcases start_cases hs realBackends a with ⟨_, -, -, heq⟩ | ⟨_, -, -, heq⟩
        · exact hf.congr rfl rfl (by simp only [step, heq]) (by simp only [step, heq])
        · exact hf.congr rfl rfl (by simp only [step, heq]) (by simp only [step, heq])
    | stop =>
      exact hf.congr rfl rfl (by simp only [step, stop_eq]) (by simp only [step, stop_eq])
    | sample sample =>
      rcases sample_cases hholding sample with ⟨hpicture, hsample⟩ |
        ⟨px, hpicture, ⟨hover, hsample⟩ | ⟨-, image, hsample, hdepicts⟩⟩
      · exact hf.congr hpicture rfl (by simp only [step, hsample]) (by simp only [step, hsample])
      · have hres : step realBackends s (.sample sample) = ({ undefinedResult := true }, s) := by
          simp only [step, hsample]
        refine ⟨fun hfits => ?_, ?_⟩
        · rw [filterMap_taken_snoc, List.forall_mem_append] at hfits
          have hpx := hfits.2 px (Option.mem_toList.mpr hpicture)
          exact absurd hover hpx.not_overflows
        · rw [hres, List.flatMap_append]
          simpa [displayed] using hf.lastFrame
      · have hres : step realBackends s (.sample sample) =
            ({}, { s with queued := s.queued ++ [image] }) := by
          simp only [step, hsample]
        refine ⟨fun hfits => ?_, ?_⟩
        · rw [filterMap_taken_snoc, List.forall_mem_append] at hfits
          have hpx := hfits.2 px (Option.mem_toList.mpr hpicture)
          have hframes := List.rel_append (hf.frames hfits.1) (.cons (hdepicts hpx) .nil)
          rw [hres, filterMap_taken_snoc, List.flatMap_append]
          simpa [displayed, taken, hpicture] using hframes
        · rw [hres, List.flatMap_append]
          simpa [displayed] using hf.lastFrame
    | deliverFrame =>
      cases hqueued : s.queued with
      | nil =>
        have hnone : s.deliverFrame = ([], s) := by simp only [deliverFrame, hqueued]
        refine hf.congr rfl ?_ (by simp only [step, hnone]) (by simp only [step, hnone])
        simp [displayed, hqueued]
      | cons image queued =>
        simp only [step, deliverFrame, hqueued]
        refine ⟨?_, ?_⟩
        · have hframes := hf.frames
          rw [hqueued] at hframes
          rw [filterMap_taken_snoc, List.flatMap_append]
          simpa [taken, displayed, hqueued] using hframes
        · rw [List.flatMap_append]
          simp [displayed, hqueued]

theorem told_call (realBackends : Bool) (s : LocalScreenSource) (op : Op) :
    Told (call (step realBackends) s op) := by
  cases op with
  | start a =>
    cases hs : s.active with
    | true =>
      constructor <;> simp [step, start_of_active hs, displayed]
    | false =>
      rcases start_cases hs realBackends a with ⟨_, -, -, heq⟩ | ⟨text, -, hfails, heq⟩
      · constructor <;> simp [step, heq, displayed, hs, ne_comm]
      · refine ⟨?_, ?_, ?_, fun _ => .inr ⟨a, rfl, fun h => hfails fun _ => h⟩⟩
        · simp [step, heq]
        · simp [step, heq, ne_comm]
        · simp [step, heq, displayed]
  | stop =>
    cases hs : s.active <;> constructor <;> simp [step, stop_eq, displayed, hs, ne_comm]
  | sample px =>
    unfold step
    cases hsample : s.sample px with
    | none => constructor <;> simp [hsample, displayed]
    | some s' =>
      obtain ⟨queued, rfl⟩ := sample_queued hsample
      constructor <;> simp [hsample, displayed]
  | deliverFrame =>
    constructor <;> cases hqueued : s.queued <;> simp [step, deliverFrame, displayed, hqueued]

/-- A call has a defined result unless its picture overflows. -/
theorem undefinedResult_step (hholding : Holding realBackends h s) (op : Op) :
    (step realBackends s op).1.undefinedResult = false ↔
      ∀ px ∈ taken realBackends (call (step realBackends) s op), ¬ Overflows px := by
  cases op with
  | start a => simp [step, taken]
  | stop => simp [step, taken]
  | sample sample =>
    rcases sample_cases hholding sample with ⟨hpicture, hsample⟩ |
      ⟨px, hpicture, ⟨hover, hsample⟩ | ⟨hover, image, hsample, -⟩⟩
    · simp [step, taken, hpicture, hsample]
    · simp [step, taken, hpicture, hsample, hover]
    · simp [step, taken, hpicture, hsample, hover]
  | deliverFrame => simp [step, taken]

/-- In every run of the preview, while the frames come on another thread, the signals tell what has
changed, and the pictures of the screen are shown whole, once each and in order. -/
theorem previewed (hr : Run (step realBackends) {} h s) : Previewed realBackends h s := by
  have hholding := holding_run hr
  have hfollowing := following_run hr
  have hdefined : ∀ c ∈ h, c.res.undefinedResult = false ↔
      ∀ px ∈ taken realBackends c, ¬ Overflows px := by
    intro c hc
    obtain ⟨a, b, rfl⟩ := List.append_of_mem hc
    obtain ⟨hbefore, hcall, -⟩ := hr.split
    rw [hcall]
    exact undefinedResult_step (holding_run hbefore) c.op
  refine ⟨⟨?_, ?_⟩, ?_, hholding.active, hholding.statusText, hfollowing.frames,
    hfollowing.lastFrame⟩
  · intro hsafe px hpx
    obtain ⟨c, hc, htaken⟩ := List.mem_filterMap.mp hpx
    exact (hdefined c hc).mp (hsafe c hc) px htaken
  · intro hnot c hc
    exact (hdefined c hc).mpr fun px htaken =>
      hnot px (List.mem_filterMap.mpr ⟨c, hc, htaken⟩)
  · intro c hc
    rw [hr.call_of_mem hc]
    exact told_call realBackends c.pre c.op

/-- One pixel above another, with two bytes of padding after each row. -/
def twoPixels : PixelBuffer where
  width := 1
  height := 2
  bytesPerRow := 6
  base := some [1, 2, 3, 4, 0, 0, 5, 6, 7, 8, 0, 0]
  row_le := by decide
  rows_le := by decide

theorem previewed_two_pixels :
    let ops : List Op := [.start { content := some [7] }, .sample (some twoPixels), .deliverFrame]
    (final (step true) {} ops).lastFrame = ⟨1, 2, [1, 2, 3, 4, 5, 6, 7, 8]⟩ ∧
      Previewed true (calls (step true) {} ops) (final (step true) {} ops) := by
  exact ⟨by decide, previewed (run_calls _ _)⟩

end LocalScreenSource
end Redesk.Ui
