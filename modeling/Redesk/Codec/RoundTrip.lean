import Redesk.Codec.Stub

/-! What the decoder makes of a packet: of one that was encoded, and of any bytes at all. -/
namespace Redesk.Codec
open Pod

variable {o : ByteOrder} {e : StubEncoder} {d : StubDecoder} {f : VideoFrame}
  {packet : EncodedPacket} {data : Bytes}

/-- The last field of the header that the bytes begin with. -/
def payloadLen (o : ByteOrder) (data : Bytes) : ℕ := load o ((data.drop 28).take 4)

/-- Bytes that hold a header, begin with the magic, and go on as far as the header says. -/
structure WellFormed (o : ByteOrder) (data : Bytes) : Prop where
  header : 32 ≤ data.length
  magic : store o 4 0x52454442 <+: data
  payload : 32 + payloadLen o data ≤ data.length

/-- Frames survive the codec, and just the well-formed packets are decoded. A decoder that would
read past a packet returns nothing at all. -/
structure RoundTrip (o : ByteOrder) : Prop where
  lossless : ∀ (e : StubEncoder) (f : VideoFrame), f.cpuPixels.length < 2 ^ 32 →
    (e.encode o f).1.ok → ∃ pkt, (e.encode o f).2.1 = some pkt ∧
      ∀ (d : StubDecoder) (packet : EncodedPacket), d.frameCb → pkt.data <+: packet.data →
        d.decode o packet = some (.success, [{
          size := f.size
          format := f.format
          timestampUs := f.timestampUs
          cpuPixels := f.cpuPixels }])
  delivered : ∀ (d : StubDecoder) (packet : EncodedPacket), d.frameCb →
    WellFormed o packet.data → ∃ f : VideoFrame, d.decode o packet = some (.success, [f]) ∧
      f.cpuPixels = (packet.data.drop 32).take (payloadLen o packet.data)
  refused : ∀ (d : StubDecoder) (packet : EncodedPacket), d.frameCb →
    ¬ WellFormed o packet.data → ∃ status : Status, d.decode o packet = some (status, []) ∧
      status.ok = false

theorem toNat_ofNat_load : (UInt32.ofNat (load o (data.take 4))).toNat = load o (data.take 4) := by
  rw [UInt32.toNat_ofNat']
  exact Nat.mod_eq_of_lt load_take_lt

theorem magic_iff (h : 32 ≤ data.length) :
    (StubHeader.ofBytes o (data.take 32)).magic = kStubMagic ↔ store o 4 0x52454442 <+: data := by
  have hlen : (data.take 4).length = 4 := by
    rw [List.length_take]
    omega
  have hmagic : (StubHeader.ofBytes o (data.take 32)).magic = .ofNat (load o (data.take 4)) := by
    simp [StubHeader.ofBytes, next, List.take_take]
  have hprefix : store o 4 0x52454442 <+: data ↔ data.take 4 = store o 4 0x52454442 := by
    rw [List.prefix_iff_eq_take, length_store, eq_comm]
  rw [hmagic, hprefix, ← load_eq_iff hlen (by decide), ← UInt32.toNat_inj,
    toNat_ofNat_load]
  rfl

theorem toNat_payloadLen : (StubHeader.ofBytes o (data.take 32)).payloadLen.toNat =
    payloadLen o data := by
  have hlast : (StubHeader.ofBytes o (data.take 32)).payloadLen =
      .ofNat (load o ((data.drop 28).take 4)) := by
    simp [StubHeader.ofBytes, next, List.drop_take, List.take_take]
  rw [hlast, toNat_ofNat_load, payloadLen]

/-- The frame that is described by a header. -/
def StubHeader.frame (hdr : StubHeader) (pixels : Bytes) : VideoFrame where
  size := ⟨hdr.width, hdr.height⟩
  format := ⟨hdr.format.toInt32⟩
  timestampUs := hdr.timestampUs
  cpuPixels := pixels

/-- The decoder when the packet has a header, which is then read within it. -/
theorem decode_of_header (hd : d.frameCb) (h : 32 ≤ packet.data.length) : d.decode o packet =
    if (StubHeader.ofBytes o (packet.data.take 32)).magic ≠ kStubMagic then
      some (.error .invalidArgument "bad stub magic", [])
    else if packet.data.length < 32 + payloadLen o packet.data then
      some (.error .invalidArgument "truncated stub payload", [])
    else (Buffer.slice packet.data 32 (payloadLen o packet.data)).bind fun pixels =>
      some (.success, [(StubHeader.ofBytes o (packet.data.take 32)).frame pixels]) := by
  have hshort : ¬ packet.data.length < StubHeader.size := Nat.not_lt.mpr h
  have hmemory : Buffer.slice packet.data 0 StubHeader.size = some (packet.data.take 32) :=
    Buffer.slice_of_drop rfl (by rw [StubHeader.size]; omega)
  have hrest : StubHeader.size + payloadLen o packet.data - StubHeader.size =
      payloadLen o packet.data := Nat.add_sub_cancel_left ..
  rw [StubDecoder.decode, if_neg (by simp [hd]), if_neg hshort, hmemory]
  simp only [Option.bind_eq_bind, Option.bind_some, toNat_payloadLen, hrest]
  rfl

theorem decode_of_wellFormed (hd : d.frameCb) (hw : WellFormed o packet.data) :
    d.decode o packet = some (.success, [(StubHeader.ofBytes o (packet.data.take 32)).frame
      ((packet.data.drop 32).take (payloadLen o packet.data))]) := by
  obtain ⟨hheader, hmagic, hpayload⟩ := hw
  rw [decode_of_header hd hheader, if_neg (not_not.mpr ((magic_iff hheader).mpr hmagic)),
    if_neg (Nat.not_lt.mpr hpayload), Buffer.slice_of_drop rfl hpayload, Option.bind_some]

theorem decode_of_not_wellFormed (hd : d.frameCb) (hw : ¬ WellFormed o packet.data) :
    ∃ message, d.decode o packet = some (.error .invalidArgument message, []) := by
  by_cases hheader : 32 ≤ packet.data.length
  · by_cases hmagic : store o 4 0x52454442 <+: packet.data
    · have hpayload : packet.data.length < 32 + payloadLen o packet.data := by
        by_contra hlong
        exact hw ⟨hheader, hmagic, Nat.not_lt.mp hlong⟩
      refine ⟨"truncated stub payload", ?_⟩
      rw [decode_of_header hd hheader, if_neg (not_not.mpr ((magic_iff hheader).mpr hmagic)),
        if_pos hpayload]
    · refine ⟨"bad stub magic", ?_⟩
      rw [decode_of_header hd hheader, if_pos (mt (magic_iff hheader).mp hmagic)]
  · refine ⟨"short packet", ?_⟩
    have hshort : packet.data.length < StubHeader.size := Nat.not_le.mp hheader
    rw [StubDecoder.decode, if_neg (by simp [hd]), if_pos hshort]

/-- A header with the magic and a payload of its length make a packet that is decoded to them. -/
theorem decode_toBytes_append {hdr : StubHeader} {pixels rest : Bytes} (hd : d.frameCb)
    (hmagic : hdr.magic = kStubMagic) (hlen : hdr.payloadLen.toNat = pixels.length)
    (hdata : packet.data = hdr.toBytes o ++ (pixels ++ rest)) :
    d.decode o packet = some (.success, [hdr.frame pixels]) := by
  have hsize : (hdr.toBytes o).length = 32 := hdr.length_toBytes o
  have hread : StubHeader.ofBytes o (packet.data.take 32) = hdr := by
    have hown := hdr.ofBytes_toBytes_append o []
    rwa [List.append_nil, ← List.take_left' hsize, ← hdata] at hown
  have hpayload : payloadLen o packet.data = pixels.length := by
    rw [← toNat_payloadLen, hread, hlen]
  have hheader : 32 ≤ packet.data.length := by
    rw [hdata, List.length_append, hsize]
    omega
  have hw : WellFormed o packet.data := by
    refine ⟨hheader, (magic_iff hheader).mp (hread ▸ hmagic), ?_⟩
    rw [hpayload, hdata, List.length_append, List.length_append, hsize]
    omega
  rw [decode_of_wellFormed hd hw, hread, hpayload, hdata, List.drop_left' hsize,
    List.take_left' rfl]

theorem frame_header (f : VideoFrame) (keyframe : Bool) : (header f keyframe).frame f.cpuPixels = {
    size := f.size
    format := f.format
    timestampUs := f.timestampUs
    cpuPixels := f.cpuPixels } := by
  rw [StubHeader.frame, header, Int32.toInt32_toUInt32]

theorem roundTrip (o : ByteOrder) : RoundTrip o where
  lossless e f hsize hok := by
    rcases e.encode_cases o f with ⟨status, hfail, heq⟩ | heq
    · rw [heq, hfail] at hok
      cases hok
    · refine ⟨_, by rw [heq], ?_⟩
      rintro d packet hd ⟨rest, hrest⟩
      have hlen : (UInt32.ofNat f.cpuPixels.length).toNat = f.cpuPixels.length := by
        rw [UInt32.toNat_ofNat']
        exact Nat.mod_eq_of_lt hsize
      rw [data_packet, List.append_assoc] at hrest
      rw [← frame_header f (e.forceKeyframe || e.firstFrame)]
      exact decode_toBytes_append hd rfl hlen hrest.symm
  delivered d packet hd hw := ⟨_, decode_of_wellFormed hd hw, rfl⟩
  refused d packet hd hw := by
    obtain ⟨message, heq⟩ := decode_of_not_wellFormed hd hw
    exact ⟨_, heq, rfl⟩

end Redesk.Codec
