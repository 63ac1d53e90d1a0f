import Redesk.Rendezvous.Protocol
import Redesk.Machine.Buffer
import Redesk.Machine.Endian

/-! The codec of the control frames: what is decoded is what was encoded, each byte string is a
frame, out of range or cut short, and nothing is read past its end. -/
namespace Redesk.Rendezvous

variable {f f' : Frame} {d s : Bytes}

/-- The decoder as it indexes its buffer; what lies outside the buffer has no value. -/
def readFrame (data : Bytes) : Option (Result Frame) :=
  let need (off n : ℕ) : Bool := decide (off + n ≤ data.length)
  if !need 0 1 then some (.fail .invalidArgument "short frame: type")
  else do
    let t ← data[0]?
    if t = 0 ∨ kMaxType < t then some (.good {})
    else if !need 1 1 then some (.fail .invalidArgument "short frame: id_len")
    else do
      let idLen ← data[1]?
      if !need 2 idLen.toNat then some (.fail .invalidArgument "short frame: id")
      else do
        let id ← Buffer.slice data 2 idLen.toNat
        let off := 2 + idLen.toNat
        if !need off 2 then some (.fail .invalidArgument "short frame: body_len")
        else do
          let high ← data[off]?
          let low ← data[off + 1]?
          let bodyLen := (high.toUInt16 <<< 8 ||| low.toUInt16).toNat
          if !need (off + 2) bodyLen then some (.fail .invalidArgument "short frame: body")
          else do
            let body ← Buffer.slice data (off + 2) bodyLen
            some (.good { type := .ofByte t, id := id, body := body })

/-- A frame of a known type whose id and body fit their length fields. -/
structure Frame.Fits (f : Frame) : Prop where
  known : f.type ≠ .unknown
  id : f.id.length ≤ 255
  body : f.body.length ≤ 65535

/-- The frame that is left of `f` on the wire. -/
def Frame.cut (f : Frame) : Frame :=
  { f with id := f.id.take 255, body := f.body.take 65535 }

theorem Frame.fits_cut (h : f.type ≠ .unknown) : f.cut.Fits where
  known := h
  id := by simp [cut]
  body := by simp [cut]

theorem Frame.cut_of_fits (h : f.Fits) : f.cut = f := by
  rw [cut, List.take_of_length_le h.id, List.take_of_length_le h.body]

/-- A length that is capped before it is converted. -/
theorem cap_eq_min {α : Type*} (g : ℕ → α) (k n : ℕ) :
    (if k < n then g k else g n) = g (min k n) := by
  rw [min_def_lt, apply_ite g]

/-- The bytes of a frame: the type, and the id and the body each after its length. -/
theorem encodeFrame_eq : encodeFrame f = f.type.toByte :: UInt8.ofNat f.cut.id.length ::
    (f.cut.id ++ UInt8.ofNat (f.cut.body.length / 256) :: UInt8.ofNat f.cut.body.length ::
      f.cut.body) := by
  have hid : (if 255 < f.id.length then 255 else UInt8.ofNat f.id.length) =
      UInt8.ofNat f.cut.id.length := by
    rw [Frame.cut, List.length_take]
    exact cap_eq_min UInt8.ofNat 255 f.id.length
  have hidLen : (UInt8.ofNat f.cut.id.length).toNat = f.cut.id.length := by
    rw [UInt8.toNat_ofNat', Frame.cut, List.length_take]
    omega
  have hbody : (if 0xFFFF < f.body.length then 0xFFFF else UInt16.ofNat f.body.length) =
      UInt16.ofNat f.cut.body.length := by
    rw [Frame.cut, List.length_take]
    exact cap_eq_min UInt16.ofNat 65535 f.body.length
  have hbodyLen : (UInt16.ofNat f.cut.body.length).toNat = f.cut.body.length := by
    rw [UInt16.toNat_ofNat', Frame.cut, List.length_take]
    omega
  have hhigh : (UInt16.ofNat f.cut.body.length >>> 8).toUInt8 =
      UInt8.ofNat (f.cut.body.length / 256) := by
    apply UInt8.toNat_inj.mp
    rw [Endian.toNat_high, hbodyLen, UInt8.toNat_ofNat', Frame.cut, List.length_take]
    omega
  have hlow : (UInt16.ofNat f.cut.body.length &&& 0xFF).toUInt8 =
      UInt8.ofNat f.cut.body.length := by
    apply UInt8.toNat_inj.mp
    rw [Endian.toNat_low, hbodyLen, UInt8.toNat_ofNat']
  have htake {l : Bytes} {n : ℕ} : l.take (l.take n).length = l.take n := by
    rw [List.length_take, List.take_eq_take_min, Nat.min_assoc, Nat.min_self,
      ← List.take_eq_take_min]
  simp only [encodeFrame, hid, hbody, hhigh, hlow, hidLen, hbodyLen]
  simp only [Frame.cut, htake]

theorem decodeFrame_of_layout {t idLen high low : UInt8} {id body : Bytes} (ht : t ≠ 0)
    (hk : t ≤ kMaxType) (hid : id.length = idLen.toNat)
    (hbody : body.length = 256 * high.toNat + low.toNat) :
    decodeFrame (t :: idLen :: (id ++ high :: low :: (body ++ s))) =
      .good { type := .ofByte t, id := id, body := body } := by
  have hrange : ¬ (t = 0 ∨ kMaxType < t) := by
    rintro (h | h)
    · exact ht h
    · exact UInt8.not_lt.mpr hk h
  have hlen : ¬ (id ++ high :: low :: (body ++ s)).length < idLen.toNat := by
    rw [List.length_append]
    omega
  have htail : ¬ (body ++ s).length < (high.toUInt16 <<< 8 ||| low.toUInt16).toNat := by
    rw [Endian.toNat_highLow, List.length_append]
    omega
  have hdrop : (id ++ high :: low :: (body ++ s)).drop idLen.toNat = high :: low :: (body ++ s) :=
    List.drop_left' hid
  simp only [decodeFrame, hrange, hlen, hdrop, htail, if_false]
  rw [List.take_left' hid, List.take_left' (hbody.trans (Endian.toNat_highLow high low).symm)]

theorem MessageType.toByte_ofByte {t : UInt8} (h0 : t ≠ 0) (hk : t ≤ kMaxType) :
    (ofByte t).toByte = t := by
  have hk : t.toNat ≤ 7 := UInt8.le_iff_toNat_le.mp hk
  have h0 : t.toNat ≠ 0 := fun h => h0 (UInt8.toNat_inj.mp h)
  have ht : t = UInt8.ofNat t.toNat := UInt8.ofNat_toNat.symm
  generalize t.toNat = n at *
  subst ht
  interval_cases n <;> rfl

theorem MessageType.ofByte_toByte (m : MessageType) : ofByte m.toByte = m := by
  cases m <;> rfl

theorem MessageType.toByte_le (m : MessageType) : m.toByte ≤ kMaxType := by
  cases m <;> decide

/-- Decoding gives back what fitted in the frame, whatever comes after it. -/
theorem decodeFrame_encodeFrame (hk : f.type ≠ .unknown) :
    decodeFrame (encodeFrame f ++ s) = .good f.cut := by
  have hfits := Frame.fits_cut hk
  have hid := hfits.id
  have hbody := hfits.body
  have ht : f.type.toByte ≠ 0 := by
    intro h0
    exact hk (MessageType.toByte_injective h0)
  rw [encodeFrame_eq]
  simp only [List.cons_append, List.append_assoc]
  rw [decodeFrame_of_layout ht (MessageType.toByte_le _), MessageType.ofByte_toByte]
  · rfl
  · rw [UInt8.toNat_ofNat']
    omega
  · rw [UInt8.toNat_ofNat', UInt8.toNat_ofNat']
    omega

/-- Bytes laid out as a frame are the encoding of that frame. -/
theorem frame_of_layout {t idLen high low : UInt8} {id body rest : Bytes} (ht : t ≠ 0)
    (hk : t ≤ kMaxType) (hid : id.length = idLen.toNat)
    (hbody : body.length = 256 * high.toNat + low.toNat)
    (hrest : rest = id ++ high :: low :: (body ++ s)) :
    ∃ f s, Frame.Fits f ∧ t :: idLen :: rest = encodeFrame f ++ s := by
  have hhigh : high.toNat < 256 := high.toNat_lt
  have hlow : low.toNat < 256 := low.toNat_lt
  have hidLen : idLen.toNat < 256 := idLen.toNat_lt
  let f : Frame := { type := .ofByte t, id := id, body := body }
  have hfits : f.Fits := by
    constructor
    · intro hu
      apply ht
      rw [← MessageType.toByte_ofByte ht hk, show MessageType.ofByte t = .unknown from hu]
      rfl
    · show id.length ≤ 255
      omega
    · show body.length ≤ 65535
      omega
  have hdiv : UInt8.ofNat (body.length / 256) = high := by
    apply UInt8.toNat_inj.mp
    rw [UInt8.toNat_ofNat', hbody]
    omega
  have hmod : UInt8.ofNat body.length = low := by
    apply UInt8.toNat_inj.mp
    rw [UInt8.toNat_ofNat', hbody]
    omega
  refine ⟨f, s, hfits, ?_⟩
  rw [encodeFrame_eq, Frame.cut_of_fits hfits, hrest, MessageType.toByte_ofByte ht hk, hdiv, hmod,
    hid, UInt8.ofNat_toNat]
  simp [f]

/-- A byte string is out of range, starts with a frame that fits, or is cut short. -/
theorem decodeFrame_cases (d : Bytes) :
    (∃ t rest, d = t :: rest ∧ (t = 0 ∨ kMaxType < t) ∧ decodeFrame d = .good {}) ∨
    (∃ f s, Frame.Fits f ∧ d = encodeFrame f ++ s) ∨
    (decodeFrame d).status.code = .invalidArgument ∧
      (d = [] ∨ ∃ t rest, d = t :: rest ∧ t ≠ 0 ∧ t ≤ kMaxType) := by
  cases d with
  | nil => exact .inr (.inr ⟨rfl, .inl rfl⟩)
  | cons t rest =>
    by_cases ht : t = 0 ∨ kMaxType < t
    · exact .inl ⟨t, rest, rfl, ht, by unfold decodeFrame; exact if_pos ht⟩
    obtain ⟨h0, hk⟩ := not_or.mp ht
    have hstart : ∃ t' rest', t :: rest = t' :: rest' ∧ t' ≠ 0 ∧ t' ≤ kMaxType :=
      ⟨t, rest, rfl, h0, UInt8.not_lt.mp hk⟩
    refine .inr ?_
    cases rest with
    | nil => exact .inr ⟨by simp only [decodeFrame, if_neg ht]; rfl, .inr hstart⟩
    | cons idLen rest =>
      by_cases hid : rest.length < idLen.toNat
      · exact .inr ⟨by simp only [decodeFrame, if_neg ht, if_pos hid]; rfl, .inr hstart⟩
      cases hrest : rest.drop idLen.toNat with
      | nil =>
        exact .inr ⟨by simp only [decodeFrame, if_neg ht, if_neg hid, hrest]; rfl, .inr hstart⟩
      | cons high tail =>
        cases tail with
        | nil =>
          exact .inr ⟨by simp only [decodeFrame, if_neg ht, if_neg hid, hrest]; rfl, .inr hstart⟩
        | cons low tail =>
          by_cases hbody : tail.length < (high.toUInt16 <<< 8 ||| low.toUInt16).toNat
          · exact .inr ⟨by simp only [decodeFrame, if_neg ht, if_neg hid, hrest, if_pos hbody]; rfl,
              .inr hstart⟩
          · rw [Endian.toNat_highLow, not_lt] at hbody
            have hsplit : rest = rest.take idLen.toNat ++ high :: low ::
                (tail.take (256 * high.toNat + low.toNat) ++
                  tail.drop (256 * high.toNat + low.toNat)) := by
              rw [List.take_append_drop, ← hrest, List.take_append_drop]
            refine .inl (frame_of_layout h0 (UInt8.not_lt.mp hk) ?_ ?_ hsplit)
            · rw [List.length_take, Nat.min_eq_left (Nat.le_of_not_lt hid)]
            · rw [List.length_take, Nat.min_eq_left hbody]

theorem decodeFrame_of_fits (h : f.Fits) : decodeFrame (encodeFrame f ++ s) = .good f := by
  rw [decodeFrame_encodeFrame h.known, Frame.cut_of_fits h]

/-- What is accepted starts with the encoding of the frame that was read. -/
theorem encodeFrame_of_decodeFrame (h : decodeFrame d = .good f) (hk : f.type ≠ .unknown) :
    f.Fits ∧ ∃ s, d = encodeFrame f ++ s := by
  rcases decodeFrame_cases d with ⟨t, rest, -, -, hd⟩ | ⟨f', s, hf, rfl⟩ | ⟨hd, -⟩
  · rw [hd] at h
    cases h
    exact absurd rfl hk
  · rw [decodeFrame_of_fits hf] at h
    cases h
    exact ⟨hf, s, rfl⟩
  · rw [h] at hd
    cases hd

/-- Whatever the bytes, the decoder reads none at or past their end. -/
theorem readFrame_eq : readFrame d = some (decodeFrame d) := by
  cases d with
  | nil => rfl
  | cons t rest =>
    by_cases ht : t = 0 ∨ kMaxType < t
    · simp [readFrame, decodeFrame, ht]
    cases rest with
    | nil => simp [readFrame, decodeFrame, ht]
    | cons idLen rest =>
      have hlen : (t :: idLen :: rest).length = 2 + rest.length := by
        rw [List.length_cons, List.length_cons]
        omega
      have hdrop : (t :: idLen :: rest).drop (2 + idLen.toNat) = rest.drop idLen.toNat := by
        rw [← List.drop_drop]
        rfl
      have hdropLen : (rest.drop idLen.toNat).length = rest.length - idLen.toNat := List.length_drop
      have hone : 1 ≤ 2 + rest.length := by omega
      have hget₀ : (t :: idLen :: rest)[0]? = some t := rfl
      have hget₁ : (t :: idLen :: rest)[1]? = some idLen := rfl
      simp only [readFrame, decodeFrame, Bool.not_eq_true', decide_eq_false_iff_not, hlen, ht, hone,
        hget₀, hget₁, Option.bind_eq_bind, Option.bind_some, zero_add, not_true_eq_false, if_false]
      rw [if_neg (by omega)]
      by_cases hid : rest.length < idLen.toNat
      · rw [if_pos (by omega), if_pos hid]
      rw [if_neg (by omega), if_neg hid, Buffer.slice_of_drop rfl (by omega), Option.bind_some]
      cases hrest : rest.drop idLen.toNat with
      | nil =>
        rw [hrest, List.length_nil] at hdropLen
        rw [if_pos (by omega)]
      | cons high tail =>
        rw [hrest, List.length_cons] at hdropLen
        rw [hrest] at hdrop
        cases tail with
        | nil =>
          rw [List.length_nil] at hdropLen
          rw [if_pos (by omega)]
        | cons low tail =>
          rw [List.length_cons] at hdropLen
          have hdrop₁ : (t :: idLen :: rest).drop (2 + idLen.toNat + 1) = low :: tail := by
            rw [← List.drop_drop, hdrop]
            rfl
          have hdrop₂ : (t :: idLen :: rest).drop (2 + idLen.toNat + 2) = tail := by
            rw [← List.drop_drop, hdrop]
            rfl
          rw [if_neg (by omega), Buffer.getElem?_of_drop hdrop, Buffer.getElem?_of_drop hdrop₁]
          simp only [Option.bind_some]
          by_cases hbody : tail.length < (high.toUInt16 <<< 8 ||| low.toUInt16).toNat
          · rw [if_pos (by omega), if_pos hbody]
          · rw [if_neg (by omega), if_neg hbody, Buffer.slice_of_drop hdrop₂ (by omega)]
            rfl

/-- A frame that fits does not begin with a byte that is out of range. -/
theorem not_out_of_range {t : UInt8} {rest : Bytes} (h : f.Fits)
    (hd : encodeFrame f ++ s = t :: rest) : ¬ (t = 0 ∨ kMaxType < t) := by
  rw [encodeFrame_eq, List.cons_append] at hd
  obtain ⟨rfl, -⟩ := List.cons_eq_cons.mp hd
  rintro (h0 | hk)
  · exact h.known (MessageType.toByte_injective h0)
  · exact UInt8.not_lt.mpr (MessageType.toByte_le _) hk

/-- What the codec promises of all frames and of all byte strings. -/
structure FrameCodec : Prop where
  roundTrip : ∀ f s, Frame.Fits f → decodeFrame (encodeFrame f ++ s) = .good f
  accepted : ∀ d f, decodeFrame d = .good f → f.type ≠ .unknown → encodeFrame f <+: d
  unknown : ∀ d, (decodeFrame d).status.ok = true ∧ (decodeFrame d).value.type = .unknown ↔
    ∃ t rest, d = t :: rest ∧ (t = 0 ∨ 7 < t)
  invalid : ∀ d, (decodeFrame d).status.code = .invalidArgument ↔
    d = [] ∨ (∃ t rest, d = t :: rest ∧ t ≠ 0 ∧ t ≤ 7) ∧ ¬ ∃ f, Frame.Fits f ∧ encodeFrame f <+: d
  inBounds : ∀ d, readFrame d = some (decodeFrame d)

theorem frameCodec : FrameCodec where
  roundTrip _ _ h := decodeFrame_of_fits h
  accepted d f h hk := by
    obtain ⟨-, s, rfl⟩ := encodeFrame_of_decodeFrame h hk
    exact List.prefix_append _ _
  unknown d := by
    rcases decodeFrame_cases d with ⟨t, rest, rfl, ht, hd⟩ | ⟨f, s, hf, rfl⟩ | ⟨hd, hstart⟩
    · rw [hd]
      exact iff_of_true ⟨rfl, rfl⟩ ⟨t, rest, rfl, ht⟩
    · rw [decodeFrame_of_fits hf]
      refine iff_of_false (fun h => hf.known h.2) ?_
      rintro ⟨t, rest, ht, hout⟩
      exact not_out_of_range hf ht hout
    · refine iff_of_false ?_ ?_
      · rintro ⟨hok, -⟩
        simp [Status.ok, hd] at hok
      · rintro ⟨t, rest, rfl, hout⟩
        rcases hstart with hnil | ⟨t', rest', ht, h0, hk⟩
        · cases hnil
        · obtain ⟨rfl, -⟩ := List.cons_eq_cons.mp ht
          exact hout.elim h0 (UInt8.not_lt.mpr hk)
  invalid d := by
    rcases decodeFrame_cases d with ⟨t, rest, rfl, ht, hd⟩ | ⟨f, s, hf, rfl⟩ | ⟨hd, hstart⟩
    · refine iff_of_false ?_ ?_
      · rw [hd]
        exact fun h => by cases h
      · rintro (hnil | ⟨⟨t', rest', ht', h0, hk⟩, -⟩)
        · cases hnil
        · obtain ⟨rfl, -⟩ := List.cons_eq_cons.mp ht'
          exact ht.elim h0 (UInt8.not_lt.mpr hk)
    · refine iff_of_false ?_ ?_
      · rw [decodeFrame_of_fits hf]
        exact fun h => by cases h
      · rintro (hnil | ⟨-, hno⟩)
        · simp [encodeFrame_eq] at hnil
        · exact hno ⟨f, hf, List.prefix_append _ _⟩
    · refine iff_of_true hd (hstart.imp id fun h => ⟨h, ?_⟩)
      rintro ⟨f, hf, s, rfl⟩
      rw [decodeFrame_of_fits hf] at hd
      cases hd
  inBounds _ := readFrame_eq

end Redesk.Rendezvous
