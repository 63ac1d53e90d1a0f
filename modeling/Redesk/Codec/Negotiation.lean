import Redesk.Codec.Stub
import Redesk.Proto.Negotiation

/-! The negotiation of the codec layer, which looks at capabilities, settles on the tier that the
wire protocol gives for the tiers that one end can encode and the other decode. -/
namespace Redesk.Codec
open Proto (CodecTier)

structure CodecCapabilities where
  h264Encode : Bool := false
  h264Decode : Bool := false
  hevcEncode : Bool := false
  hevcDecode : Bool := false
  hevc444Encode : Bool := false
  hevc444Decode : Bool := false
  av1Encode : Bool := false
  av1Decode : Bool := false
  deriving DecidableEq, Repr

structure NegotiatedCodec where
  ok : Bool := false
  codec : Codec := .h264
  chroma : ChromaFormat := .yuv420
  deriving DecidableEq, Repr

def negotiateCodec (loc remote : CodecCapabilities) (localIsSender : Bool) : NegotiatedCodec :=
  let enc := if localIsSender then loc else remote
  let dec := if localIsSender then remote else loc
  if enc.av1Encode && dec.av1Decode then { ok := true, codec := .av1, chroma := .yuv420 }
  else if enc.hevcEncode && dec.hevcDecode then
    let fourfourfour := enc.hevc444Encode && dec.hevc444Decode
    { ok := true, codec := .hevc, chroma := if fourfourfour then .yuv444 else .yuv420 }
  else if enc.h264Encode && dec.h264Decode then
    { ok := true, codec := .h264, chroma := .yuv420 }
  else { ok := false }

/-- The tiers that a list of four flags stands for, the 4:4:4 one only together with its codec. -/
def tiers (h264 hevc hevc444 av1 : Bool) : List CodecTier :=
  (if h264 then [.kH264High420] else []) ++ (if hevc then [.kHevc420] else []) ++
    (if hevc && hevc444 then [.kHevc444] else []) ++ if av1 then [.kAv1] else []

namespace CodecCapabilities

def encodeTiers (c : CodecCapabilities) : List CodecTier :=
  tiers c.h264Encode c.hevcEncode c.hevc444Encode c.av1Encode

def decodeTiers (c : CodecCapabilities) : List CodecTier :=
  tiers c.h264Decode c.hevcDecode c.hevc444Decode c.av1Decode

end CodecCapabilities

/-- The tier on the wire of what was negotiated. -/
def NegotiatedCodec.tier (n : NegotiatedCodec) : CodecTier :=
  if n.ok then
    match n.codec, n.chroma with
    | .h264, _ => .kH264High420
    | .hevc, .yuv420 => .kHevc420
    | .hevc, .yuv444 => .kHevc444
    | .av1, _ => .kAv1
  else .kNone

/-- What the two ends of a direction settle on: the highest tier that one can encode and the other
decode, the same at both ends, with full chroma for HEVC only. -/
structure Settles (negotiate : CodecCapabilities → CodecCapabilities → Bool → NegotiatedCodec) :
    Prop where
  sends : ∀ loc remote, (negotiate loc remote true).tier =
    Proto.negotiateCodec loc.encodeTiers remote.decodeTiers
  receives : ∀ loc remote, (negotiate loc remote false).tier =
    Proto.negotiateCodec remote.encodeTiers loc.decodeTiers
  agrees : ∀ loc remote localIsSender,
    negotiate loc remote localIsSender = negotiate remote loc !localIsSender
  chroma : ∀ loc remote localIsSender,
    (negotiate loc remote localIsSender).chroma = .yuv444 →
      (negotiate loc remote localIsSender).codec = .hevc
  fails : ∀ loc remote localIsSender, (negotiate loc remote localIsSender).ok = false ↔
    (negotiate loc remote localIsSender).tier = .kNone

variable {t : CodecTier} {a b c d : Bool} {loc remote : CodecCapabilities}

theorem mem_tiers : t ∈ tiers a b c d ↔ t = .kH264High420 ∧ a ∨ t = .kHevc420 ∧ b ∨
    t = .kHevc444 ∧ (b && c) ∨ t = .kAv1 ∧ d := by
  cases a <;> cases b <;> cases c <;> cases d <;> simp [tiers]

@[simp] theorem h264_mem_tiers : .kH264High420 ∈ tiers a b c d ↔ a = true := by
  revert a b c d
  decide

@[simp] theorem hevc420_mem_tiers : .kHevc420 ∈ tiers a b c d ↔ b = true := by
  revert a b c d
  decide

@[simp] theorem hevc444_mem_tiers : .kHevc444 ∈ tiers a b c d ↔ (b && c) = true := by
  revert a b c d
  decide

@[simp] theorem av1_mem_tiers : .kAv1 ∈ tiers a b c d ↔ d = true := by
  revert a b c d
  decide

/-- The tiers that one end can encode and the other decode. -/
theorem mem_common {enc dec : CodecCapabilities} : t ∈ enc.encodeTiers ∧ t ∈ dec.decodeTiers ↔
    t = .kH264High420 ∧ (enc.h264Encode && dec.h264Decode) ∨
    t = .kHevc420 ∧ (enc.hevcEncode && dec.hevcDecode) ∨
    t = .kHevc444 ∧ (enc.hevcEncode && dec.hevcDecode) ∧ (enc.hevc444Encode && dec.hevc444Decode) ∨
    t = .kAv1 ∧ (enc.av1Encode && dec.av1Decode) := by
  unfold CodecCapabilities.encodeTiers CodecCapabilities.decodeTiers
  simp only [Bool.and_eq_true]
  constructor
  · rintro ⟨h, h'⟩
    rcases mem_tiers.mp h with ⟨rfl, k⟩ | ⟨rfl, k⟩ | ⟨rfl, k⟩ | ⟨rfl, k⟩
    · exact .inl ⟨rfl, k, h264_mem_tiers.mp h'⟩
    · exact .inr (.inl ⟨rfl, k, hevc420_mem_tiers.mp h'⟩)
    · rw [hevc444_mem_tiers, Bool.and_eq_true] at h h'
      exact .inr (.inr (.inl ⟨rfl, ⟨h.1, h'.1⟩, h.2, h'.2⟩))
    · exact .inr (.inr (.inr ⟨rfl, k, av1_mem_tiers.mp h'⟩))
  · rintro (⟨rfl, h, h'⟩ | ⟨rfl, h, h'⟩ | ⟨rfl, ⟨h, h'⟩, k, k'⟩ | ⟨rfl, h, h'⟩)
    · simp [h, h']
    · simp [h, h']
    · simp [h, h', k, k']
    · simp [h, h']

/-- A common tier above all the common ones is the negotiated one. -/
theorem negotiateCodec_eq {l l' : List CodecTier} (hne : t ≠ .kNone) (ht : t ∈ l ∧ t ∈ l')
    (hmax : ∀ t', t' ∈ l ∧ t' ∈ l' → t' ≤ t) : Proto.negotiateCodec l l' = t := by
  apply le_antisymm
  · apply Proto.negotiateCodec_le_iff.mpr
    rintro t' ⟨-, ht'⟩
    exact hmax t' ht'
  · exact Proto.negotiateCodec_le_iff.mp le_rfl ⟨hne, ht⟩

/-- The direction in which the local end sends; the other one is the same with the ends swapped. -/
theorem tier_negotiateCodec (enc dec : CodecCapabilities) :
    (negotiateCodec enc dec true).tier =
      Proto.negotiateCodec enc.encodeTiers dec.decodeTiers := by
  simp only [negotiateCodec, if_true]
  split
  · rename_i hav1
    refine (negotiateCodec_eq (by decide) (mem_common.mpr (.inr (.inr (.inr ⟨rfl, hav1⟩)))) ?_).symm
    intro t ht
    rcases mem_common.mp ht with ⟨rfl, -⟩ | ⟨rfl, -⟩ | ⟨rfl, -⟩ | ⟨rfl, -⟩ <;> decide
  rename_i hav1
  split
  · rename_i hhevc
    cases h444 : enc.hevc444Encode && dec.hevc444Decode
    · refine (negotiateCodec_eq (by decide) (mem_common.mpr (.inr (.inl ⟨rfl, hhevc⟩))) ?_).symm
      intro t ht
      rcases mem_common.mp ht with ⟨rfl, -⟩ | ⟨rfl, -⟩ | ⟨-, -, h⟩ | ⟨-, h⟩
      · decide
      · decide
      · simp [h444] at h
      · exact absurd h hav1
    · have hcommon := mem_common.mpr (.inr (.inr (.inl ⟨rfl, hhevc, h444⟩)))
      refine (negotiateCodec_eq (by decide) hcommon ?_).symm
      intro t ht
      rcases mem_common.mp ht with ⟨rfl, -⟩ | ⟨rfl, -⟩ | ⟨rfl, -⟩ | ⟨-, h⟩
      · decide
      · decide
      · decide
      · exact absurd h hav1
  rename_i hhevc
  split
  · rename_i hh264
    refine (negotiateCodec_eq (by decide) (mem_common.mpr (.inl ⟨rfl, hh264⟩)) ?_).symm
    intro t ht
    rcases mem_common.mp ht with ⟨rfl, -⟩ | ⟨-, h⟩ | ⟨-, h, -⟩ | ⟨-, h⟩
    · decide
    · exact absurd h hhevc
    · exact absurd h hhevc
    · exact absurd h hav1
  · rename_i hh264
    rcases Proto.negotiateCodec_mem enc.encodeTiers dec.decodeTiers with hnone | ⟨-, ht⟩
    · exact hnone.symm
    · rcases mem_common.mp ht with ⟨-, h⟩ | ⟨-, h⟩ | ⟨-, h, -⟩ | ⟨-, h⟩
      · exact absurd h hh264
      · exact absurd h hhevc
      · exact absurd h hhevc
      · exact absurd h hav1

theorem hevc_of_yuv444 (enc dec : CodecCapabilities)
    (h : (negotiateCodec enc dec true).chroma = .yuv444) :
    (negotiateCodec enc dec true).codec = .hevc := by
  simp only [negotiateCodec, if_true] at h ⊢
  by_cases hav1 : (enc.av1Encode && dec.av1Decode) = true
  · rw [if_pos hav1] at h
    cases h
  rw [if_neg hav1] at h ⊢
  by_cases hhevc : (enc.hevcEncode && dec.hevcDecode) = true
  · rw [if_pos hhevc]
  · rw [if_neg hhevc] at h
    split at h <;> cases h

theorem settles : Settles negotiateCodec where
  sends := tier_negotiateCodec
  receives loc remote := tier_negotiateCodec remote loc
  agrees loc remote localIsSender := by
    cases localIsSender <;> rfl
  chroma loc remote localIsSender h := by
    cases localIsSender
    · exact hevc_of_yuv444 remote loc h
    · exact hevc_of_yuv444 loc remote h
  fails loc remote localIsSender := by
    cases hok : (negotiateCodec loc remote localIsSender).ok with
    | false => exact iff_of_true rfl (by rw [NegotiatedCodec.tier, hok]; rfl)
    | true =>
      refine iff_of_false Bool.noConfusion ?_
      rw [NegotiatedCodec.tier, hok, if_pos rfl]
      split <;> decide

end Redesk.Codec
