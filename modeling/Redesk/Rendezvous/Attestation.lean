import Redesk.Machine.PrefixCode
import Redesk.Rendezvous.Introductions

/-! What is signed and what is sent of an introduction: neither can be read in two ways, though the
signatures of the default build do not tell all messages apart. -/
namespace Redesk.Rendezvous
open PrefixCode

variable {id id' : RedeskId} {pk pk' sig sig' vk vk' : Bytes}

/-- The keys that are signed are those of the right length. -/
theorem signPeerKey_ok_iff : (InsecureTestSigner.signPeerKey id pk).status.ok = true ↔
    pk.length = kStaticPubKeyLen := by
  rw [InsecureTestSigner.signPeerKey]
  split
  · rename_i hlen
    exact iff_of_false Bool.false_ne_true hlen
  · rename_i hlen
    exact iff_of_true rfl (not_not.mp hlen)

/-- The key is the end of the message, and the id is what stands between it and the domain. -/
theorem introMessage_inj (hpk : pk.length = kStaticPubKeyLen) (hpk' : pk'.length = kStaticPubKeyLen)
    (h : introMessage id pk = introMessage id' pk') : id = id' ∧ pk = pk' := by
  simp only [introMessage, List.append_assoc] at h
  exact List.append_inj' (List.append_cancel_left h) (hpk.trans hpk'.symm)

def Short (v : Bytes) : Prop := v.length ≤ 255

theorem readable_pushLv : Readable Short pushLv := by
  have hlength : Readable Short fun v => UInt8.ofNat v.length :: v := by
    apply readable_of_length
    intro x y hx hy h
    have htoNat := congrArg UInt8.toNat h
    rw [UInt8.toNat_ofNat', UInt8.toNat_ofNat'] at htoNat
    unfold Short at hx hy
    omega
  intro x y hx hy r s heq
  rw [Loop.pushLv_of_le hx, Loop.pushLv_of_le hy] at heq
  exact hlength hx hy heq

theorem readable_attestation : Readable (fun p : (Bytes × Bytes) × Bytes =>
    (Short p.1.1 ∧ Short p.1.2) ∧ Short p.2) fun p => encodeAttestation p.1.1 p.1.2 p.2 :=
  (readable_pushLv.append readable_pushLv).append readable_pushLv

/-- What is signed and what is sent of an introduction are read in one way only. -/
structure Unambiguous : Prop where
  message : ∀ id id' pk pk', (InsecureTestSigner.signPeerKey id pk).status.ok = true →
    (InsecureTestSigner.signPeerKey id' pk').status.ok = true →
      introMessage id pk = introMessage id' pk' → id = id' ∧ pk = pk'
  attestation : ∀ pk sig vk pk' sig' vk', Short pk → Short sig → Short vk → Short pk' →
    Short sig' → Short vk' → encodeAttestation pk sig vk = encodeAttestation pk' sig' vk' →
      pk = pk' ∧ sig = sig' ∧ vk = vk'
  prefixFree : ∀ pk sig vk pk' sig' vk', Short pk → Short sig → Short vk → Short pk' →
    Short sig' → Short vk' → encodeAttestation pk sig vk <+: encodeAttestation pk' sig' vk' →
      encodeAttestation pk sig vk = encodeAttestation pk' sig' vk'

theorem unambiguous : Unambiguous where
  message id id' pk pk' hok hok' h :=
    introMessage_inj (signPeerKey_ok_iff.mp hok) (signPeerKey_ok_iff.mp hok') h
  attestation pk sig vk pk' sig' vk' hpk hsig hvk hpk' hsig' hvk' h := by
    have htriple := readable_attestation.injOn (x := ((pk, sig), vk)) (y := ((pk', sig'), vk'))
      ⟨⟨hpk, hsig⟩, hvk⟩ ⟨⟨hpk', hsig'⟩, hvk'⟩ h
    simpa [and_assoc] using htriple
  prefixFree pk sig vk pk' sig' vk' hpk hsig hvk hpk' hsig' hvk' h := by
    have htriple := readable_attestation.eq_of_prefix (x := ((pk, sig), vk))
      (y := ((pk', sig'), vk')) ⟨⟨hpk, hsig⟩, hvk⟩ ⟨⟨hpk', hsig'⟩, hvk'⟩ h
    simp only [Prod.mk.injEq] at htriple
    obtain ⟨⟨rfl, rfl⟩, rfl⟩ := htriple
    rfl

/-- The signature of the default build is mixed into 64 bytes, the first of which the mark
overwrites: a byte more in the message, here one that moves from the key to the id, may not be
seen. -/
theorem signPeerKey_not_injective :
    let id : RedeskId := .replicate 17 0x31
    let pk : StaticPubKey := .replicate 32 5
    let id' : RedeskId := id ++ [5]
    let pk' : StaticPubKey := .replicate 31 5 ++ [0x77]
    (InsecureTestSigner.signPeerKey id pk).status.ok = true ∧
      (InsecureTestSigner.signPeerKey id' pk').status.ok = true ∧
      (InsecureTestSigner.signPeerKey id pk).value =
        (InsecureTestSigner.signPeerKey id' pk').value ∧ id ≠ id' := by
  decide +kernel

end Redesk.Rendezvous
