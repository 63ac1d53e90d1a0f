import Redesk.Machine.Endian
import Redesk.Common.Types
import Redesk.Machine.Buffer

/-! The codec of the default build. A packet is a frame's pixels behind a header that has the layout
of the host's memory: numbers of so many bytes each, one after the other, in its byte order. -/
namespace Pod

/-- Which end of a number is stored first. -/
inductive ByteOrder where
  | little | big
  deriving DecidableEq, Repr

variable (o : ByteOrder)

/-- The `k` bytes of a number. -/
def store (k n : ℕ) : List UInt8 :=
  match o with
  | .little => Endian.encode k n
  | .big => (Endian.encode k n).reverse

def load (bs : List UInt8) : ℕ :=
  match o with
  | .little => Endian.decode bs
  | .big => Endian.decode bs.reverse

/-- The number in the next `k` bytes, and what comes after it. -/
def next (k : ℕ) (bs : List UInt8) : ℕ × List UInt8 := (load o (bs.take k), bs.drop k)

variable {o} {k n : ℕ} {bs rest : List UInt8}

@[simp] theorem length_store : (store o k n).length = k := by
  cases o <;> simp [store]

theorem load_store : load o (store o k n) = n % 256 ^ k := by
  cases o <;> simp [load, store, Endian.decode_encode]

theorem store_load : store o bs.length (load o bs) = bs := by
  cases o with
  | little => exact Endian.encode_decode bs
  | big =>
    have hrev := Endian.encode_decode bs.reverse
    rw [List.length_reverse] at hrev
    rw [store, load, hrev, List.reverse_reverse]

theorem load_lt : load o bs < 256 ^ bs.length := by
  cases o with
  | little => exact Endian.decode_lt bs
  | big =>
    have hlt := Endian.decode_lt bs.reverse
    rwa [List.length_reverse] at hlt

theorem load_take_lt : load o (bs.take k) < 256 ^ k :=
  load_lt.trans_le (Nat.pow_le_pow_right (by decide) (List.length_take_le k bs))

/-- The bytes of a number are known from the number. -/
theorem load_eq_iff (hk : bs.length = k) (hn : n < 256 ^ k) :
    load o bs = n ↔ bs = store o k n := by
  constructor
  · rintro rfl
    rw [← hk, store_load]
  · rintro rfl
    rw [load_store, Nat.mod_eq_of_lt hn]

/-- A number that was stored is the next one, whatever comes after it. -/
theorem next_store_append (hn : n < 256 ^ k) : next o k (store o k n ++ rest) = (n, rest) := by
  rw [next, List.take_left' length_store, List.drop_left' length_store, load_store,
    Nat.mod_eq_of_lt hn]

end Pod

namespace Redesk
open Pod

structure Size where
  width : UInt32 := 0
  height : UInt32 := 0
  deriving DecidableEq, Repr

structure Rect where
  x : Int32 := 0
  y : Int32 := 0
  width : Int32 := 0
  height : Int32 := 0
  deriving DecidableEq

/-- An enumeration whose values need not be named ones: any `int` can be cast to it. -/
structure PixelFormat where
  value : Int32
  deriving DecidableEq

namespace PixelFormat

def unknown : PixelFormat := ⟨0⟩
def bgra8 : PixelFormat := ⟨1⟩
def nv12 : PixelFormat := ⟨2⟩
def p010 : PixelFormat := ⟨3⟩
def i444 : PixelFormat := ⟨4⟩

end PixelFormat

/-- A captured frame; `nativeHandle` is an address, and zero is the null pointer. -/
structure VideoFrame where
  size : Size := {}
  format : PixelFormat := .unknown
  timestampUs : UInt64 := 0
  nativeHandle : UInt64 := 0
  cpuPixels : Bytes := []
  dirtyRects : List Rect := []
  isIdle : Bool := false
  deriving DecidableEq

structure EncodedPacket where
  data : Bytes := []
  timestampUs : UInt64 := 0
  keyframe : Bool := false
  deriving DecidableEq, Repr

inductive Codec where
  | h264 | hevc | av1
  deriving DecidableEq, Repr

namespace Codec

inductive ChromaFormat where
  | yuv420 | yuv444
  deriving DecidableEq, Repr

inductive RateControl where
  | cbr | cappedVbr
  deriving DecidableEq, Repr

structure EncoderConfig where
  codec : Codec := .h264
  resolution : Size := {}
  chroma : ChromaFormat := .yuv420
  targetBitrateKbps : UInt32 := 8000
  maxBitrateKbps : UInt32 := 0
  maxFps : UInt32 := 60
  rateControl : RateControl := .cappedVbr
  lowLatency : Bool := true
  vbvMaxMs : UInt32 := 250
  inputFormat : PixelFormat := .nv12
  deriving DecidableEq

def kStubMagic : UInt32 := 0x52454442

structure StubHeader where
  magic : UInt32 := 0
  width : UInt32 := 0
  height : UInt32 := 0
  format : UInt32 := 0
  timestampUs : UInt64 := 0
  keyframe : UInt32 := 0
  payloadLen : UInt32 := 0
  deriving DecidableEq, Repr

namespace StubHeader

/-- `sizeof(StubHeader)`: no field needs padding before it. -/
def size : ℕ := 32

/-- The memory of a header. -/
def toBytes (o : ByteOrder) (hdr : StubHeader) : Bytes :=
  store o 4 hdr.magic.toNat ++ (store o 4 hdr.width.toNat ++ (store o 4 hdr.height.toNat ++
    (store o 4 hdr.format.toNat ++ (store o 8 hdr.timestampUs.toNat ++
      (store o 4 hdr.keyframe.toNat ++ store o 4 hdr.payloadLen.toNat)))))

/-- The header that has these bytes as its memory. -/
def ofBytes (o : ByteOrder) (bs : Bytes) : StubHeader :=
  let (magic, bs) := next o 4 bs
  let (width, bs) := next o 4 bs
  let (height, bs) := next o 4 bs
  let (format, bs) := next o 4 bs
  let (timestampUs, bs) := next o 8 bs
  let (keyframe, bs) := next o 4 bs
  let (payloadLen, _) := next o 4 bs
  { magic := .ofNat magic
    width := .ofNat width
    height := .ofNat height
    format := .ofNat format
    timestampUs := .ofNat timestampUs
    keyframe := .ofNat keyframe
    payloadLen := .ofNat payloadLen }

end StubHeader

def appendPod (out data : Bytes) : Bytes := out ++ data

/-- The header of a frame; the length is cut to 32 bits. -/
def header (frame : VideoFrame) (keyframe : Bool) : StubHeader where
  magic := kStubMagic
  width := frame.size.width
  height := frame.size.height
  format := frame.format.value.toUInt32
  timestampUs := frame.timestampUs
  keyframe := if keyframe then 1 else 0
  payloadLen := .ofNat frame.cpuPixels.length

/-- The packet that `encode` builds. -/
def packet (o : ByteOrder) (frame : VideoFrame) (keyframe : Bool) : EncodedPacket where
  data := appendPod (appendPod [] ((header frame keyframe).toBytes o)) frame.cpuPixels
  timestampUs := frame.timestampUs
  keyframe := keyframe

/-- Of the packet callback it matters here whether there is one. -/
structure StubEncoder where
  codec : Codec
  config : EncoderConfig := {}
  packetCb : Bool := false
  forceKeyframe : Bool := false
  firstFrame : Bool := true
  deriving DecidableEq

namespace StubEncoder

def configure (e : StubEncoder) (config : EncoderConfig) : Status × StubEncoder :=
  (.success, { e with config := config, codec := config.codec })

def setPacketCallback (e : StubEncoder) (cb : Bool) : StubEncoder := { e with packetCb := cb }

def requestKeyframe (e : StubEncoder) : StubEncoder := { e with forceKeyframe := true }

/-- There is no intra-refresh; it falls back to a keyframe. -/
def forceIntraRefresh (e : StubEncoder) : StubEncoder := { e with forceKeyframe := true }

/-- The status, the packet that the callback is called with, and the encoder at that call. -/
def encode (o : ByteOrder) (e : StubEncoder) (frame : VideoFrame) :
    Status × Option EncodedPacket × StubEncoder :=
  if !e.packetCb then (.error .invalidArgument "no packet callback installed", none, e)
  else if frame.cpuPixels = [] ∧ frame.nativeHandle ≠ 0 then
    (.error .unsupported "stub encoder requires CPU pixels", none, e)
  else
    let keyframe := e.forceKeyframe || e.firstFrame
    (.success, some (packet o frame keyframe),
      { e with forceKeyframe := false, firstFrame := false })

end StubEncoder

structure StubDecoder where
  codec : Codec
  frameCb : Bool := false
  deriving DecidableEq, Repr

namespace StubDecoder

def configure (d : StubDecoder) (codec : Codec) : Status × StubDecoder :=
  (.success, { d with codec := codec })

def setFrameCallback (d : StubDecoder) (cb : Bool) : StubDecoder := { d with frameCb := cb }

/-- The status and the frames that the callback is called with; a read past the packet has no
value. The sum of the sizes does not wrap in 64 bits. -/
def decode (o : ByteOrder) (d : StubDecoder) (packet : EncodedPacket) :
    Option (Status × List VideoFrame) :=
  if !d.frameCb then some (.error .invalidArgument "no frame callback installed", [])
  else if packet.data.length < StubHeader.size then
    some (.error .invalidArgument "short packet", [])
  else do
    let memory ← Buffer.slice packet.data 0 StubHeader.size
    let hdr := StubHeader.ofBytes o memory
    if hdr.magic ≠ kStubMagic then some (.error .invalidArgument "bad stub magic", [])
    else
      let expected := StubHeader.size + hdr.payloadLen.toNat
      if packet.data.length < expected then
        some (.error .invalidArgument "truncated stub payload", [])
      else
        let pixels ← Buffer.slice packet.data StubHeader.size (expected - StubHeader.size)
        let frame : VideoFrame := {
          size := ⟨hdr.width, hdr.height⟩
          format := ⟨hdr.format.toInt32⟩
          timestampUs := hdr.timestampUs
          cpuPixels := pixels }
        some (.success, [frame])

end StubDecoder

namespace StubHeader

variable (o : ByteOrder) (hdr : StubHeader)

theorem length_toBytes : (hdr.toBytes o).length = size := by
  simp [toBytes, size]

/-- A header is read back from its memory, whatever comes after it. -/
theorem ofBytes_toBytes_append (rest : Bytes) : ofBytes o (hdr.toBytes o ++ rest) = hdr := by
  have hword (w : UInt32) (rest : Bytes) : next o 4 (store o 4 w.toNat ++ rest) = (w.toNat, rest) :=
    next_store_append w.toNat_lt
  have hlong (w : UInt64) (rest : Bytes) : next o 8 (store o 8 w.toNat ++ rest) = (w.toNat, rest) :=
    next_store_append w.toNat_lt
  simp only [toBytes, ofBytes, List.append_assoc, hword, hlong, UInt32.ofNat_toNat,
    UInt64.ofNat_toNat]

end StubHeader

variable {o : ByteOrder} {frame : VideoFrame} {keyframe : Bool}

theorem data_packet : (packet o frame keyframe).data =
    (header frame keyframe).toBytes o ++ frame.cpuPixels := by
  rw [packet, appendPod, appendPod, List.nil_append]

theorem ofBytes_packet :
    StubHeader.ofBytes o (packet o frame keyframe).data = header frame keyframe := by
  rw [data_packet, StubHeader.ofBytes_toBytes_append]

/-- A call of `encode` fails and does nothing, or it emits one packet and forgets the requests. -/
theorem StubEncoder.encode_cases (o : ByteOrder) (e : StubEncoder) (frame : VideoFrame) :
    (∃ status : Status, status.ok = false ∧ e.encode o frame = (status, none, e)) ∨
      e.encode o frame = (.success, some (packet o frame (e.forceKeyframe || e.firstFrame)),
        { e with forceKeyframe := false, firstFrame := false }) := by
  rw [encode]
  split
  · exact .inl ⟨_, rfl, rfl⟩
  split
  · exact .inl ⟨_, rfl, rfl⟩
  · exact .inr rfl

end Codec
end Redesk
