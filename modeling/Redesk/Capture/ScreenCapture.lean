import Redesk.Capture.Capturer
import Redesk.Machine.Raster

/-! The capturer of macOS: a stream of the system's, whose pictures come in padded rows and are
packed into frames. -/
namespace Redesk.Capture
open Raster

/-- A picture of the system's. Its rows begin at a fixed distance and lie in its memory, if that can
be read. -/
structure PixelBuffer where
  width : UInt32
  height : UInt32
  bytesPerRow : ℕ
  base : Option Bytes
  row_le : width.toNat * 4 ≤ bytesPerRow
  rows_le : ∀ src ∈ base, height.toNat * bytesPerRow ≤ src.length

/-- What is seen at a byte of a row: zero where the memory cannot be read. -/
def PixelBuffer.byteAt (px : PixelBuffer) (y x : ℕ) : Option UInt8 :=
  match px.base with
  | some src => src[y * px.bytesPerRow + x]?
  | none => some 0

/-- What the system answers to a start: whether it has been granted, the ids of the displays if they
can be listed, which of them is the main one, and whether the stream can be set up and started. -/
structure ScreenAnswers where
  granted : Bool := true
  content : Option (List UInt32)
  mainDisplay : UInt32 := 0
  addOutput : Bool := true
  startCapture : Bool := true
  deriving DecidableEq, Repr

/-- There is a display, and nothing fails. -/
structure ScreenAnswers.Succeed (a : ScreenAnswers) : Prop where
  granted : a.granted = true
  displays : ∃ displays, a.content = some displays ∧ displays ≠ []
  addOutput : a.addOutput = true
  startCapture : a.startCapture = true

/-- Of the callback it is kept whether there is one; the stream is the system's. -/
structure SckCapturer where
  frameCb : Bool := false
  capturing : Bool := false
  deriving DecidableEq, Repr

namespace SckCapturer

/-- A start with the display left to the capturer: the main one, or else the first. -/
def start (c : SckCapturer) (a : ScreenAnswers) : Status × SckCapturer :=
  if c.capturing then (.success, c)
  else if !a.granted then
    (.error .permissionDenied ("Screen Recording permission needed. Grant REDesk in System " ++
      "Settings > Privacy & Security > Screen Recording, then click Start again."), c)
  else
    match a.content with
    | none => (.error .permissionDenied "Screen Recording permission denied or unavailable", c)
    | some displays =>
      match (displays.find? (· = a.mainDisplay)).or displays.head? with
      | none => (.error .notFound "no display to capture", c)
      | some _ =>
        if !a.addOutput then (.error .internal "addStreamOutput failed", c)
        else if !a.startCapture then (.error .internal "startCapture failed", c)
        else (.success, { c with capturing := true })

/-- The frame of a picture whose bytes have been packed. -/
def frame (px : PixelBuffer) (pixels : Bytes) : VideoFrame where
  size := ⟨px.width, px.height⟩
  format := .bgra8
  timestampUs := 0
  cpuPixels := pixels

/-- The frame that the callback is called with, if it is called; a read past the picture has no
value. A sample may come without a picture. -/
def onSample (c : SckCapturer) (sample : Option PixelBuffer) : Option (Option VideoFrame) :=
  if !c.frameCb then some none
  else
    match sample with
    | none => some none
    | some px =>
      let dstStride := px.width.toNat * 4
      match px.base with
      | none => some (some (frame px (.replicate (px.height.toNat * dstStride) 0)))
      | some src => do
        let pixels ← pack src px.bytesPerRow dstStride px.height.toNat
        return some (frame px pixels)

end SckCapturer

/-- A start succeeds if the system has a display and refuses nothing. -/
theorem SckCapturer.start_cases {c : SckCapturer} (hc : c.capturing = false) (a : ScreenAnswers) :
    a.Succeed ∧ (c.start a).1 = .success ∧ (c.start a).2.frameCb = c.frameCb ∨
      ¬ a.Succeed ∧ ((c.start a).1.code = .permissionDenied ∨ (c.start a).1 ∈ [
        .error .notFound "no display to capture", .error .internal "addStreamOutput failed",
        .error .internal "startCapture failed"]) := by
  unfold SckCapturer.start
  rw [if_neg (by simp [hc])]
  cases hgranted : a.granted with
  | false => exact .inr ⟨fun h => absurd h.granted (by simp [hgranted]), .inl rfl⟩
  | true =>
    simp only [Bool.not_true, Bool.false_eq_true, if_false]
    cases hcontent : a.content with
    | none =>
      refine .inr ⟨fun h => ?_, .inl rfl⟩
      obtain ⟨displays, hd, -⟩ := h.displays
      rw [hcontent] at hd
      cases hd
    | some displays =>
      cases htarget : (displays.find? (· = a.mainDisplay)).or displays.head? with
      | none =>
        refine .inr ⟨fun h => ?_, .inr (by simp [htarget])⟩
        obtain ⟨displays', hd, hne⟩ := h.displays
        rw [hcontent] at hd
        obtain rfl := Option.some.inj hd
        rw [Option.or_eq_none_iff, List.head?_eq_none_iff] at htarget
        exact hne htarget.2
      | some target =>
        have hne : displays ≠ [] := by
          rintro rfl
          cases htarget
        cases hadd : a.addOutput with
        | false =>
          exact .inr ⟨fun h => absurd h.addOutput (by simp [hadd]), .inr (by simp [htarget])⟩
        | true =>
          cases hstart : a.startCapture with
          | false =>
            refine .inr ⟨fun h => absurd h.startCapture (by simp [hstart]), .inr ?_⟩
            simp [htarget]
          | true =>
            refine .inl ⟨⟨hgranted, ⟨displays, hcontent, hne⟩, hadd, hstart⟩, ?_⟩
            simp [htarget]

/-- The frame shows the picture. -/
structure Shows (px : PixelBuffer) (frame : VideoFrame) : Prop where
  size : frame.size = ⟨px.width, px.height⟩
  length : frame.cpuPixels.length = px.height.toNat * (px.width.toNat * 4)
  byte : ∀ y < px.height.toNat, ∀ x < px.width.toNat * 4,
    frame.cpuPixels[y * (px.width.toNat * 4) + x]? = px.byteAt y x

/-- A picture is packed without a read past its rows. -/
theorem shows_onSample {c : SckCapturer} (hc : c.frameCb = true) (px : PixelBuffer) :
    ∃ frame, c.onSample (some px) = some (some frame) ∧ Shows px frame := by
  unfold SckCapturer.onSample
  rw [if_neg (by simp [hc])]
  dsimp only
  cases hbase : px.base with
  | none =>
    refine ⟨_, rfl, rfl, List.length_replicate, ?_⟩
    intro y hy x hx
    have hrow : (y + 1) * (px.width.toNat * 4) ≤ px.height.toNat * (px.width.toNat * 4) :=
      Nat.mul_le_mul_right _ hy
    rw [Nat.succ_mul] at hrow
    unfold PixelBuffer.byteAt
    rw [hbase]
    exact List.getElem?_replicate_of_lt (by omega)
  | some src =>
    obtain ⟨pixels, hpack⟩ := exists_pack px.row_le (px.rows_le src hbase)
    refine ⟨SckCapturer.frame px pixels, ?_, rfl, length_pack hpack, ?_⟩
    · simp only [hpack]
      rfl
    intro y hy x hx
    unfold PixelBuffer.byteAt
    rw [hbase]
    exact getElem?_pack hpack hx hy

end Redesk.Capture
