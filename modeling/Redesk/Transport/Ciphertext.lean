import Redesk.Crypto.Noise
import Redesk.Transport.Loopback

/-! Ciphertexts on the loopback transport: which plaintexts can be encrypted and sent. -/
namespace Redesk.Transport
open LoopbackTransport

variable {s s' : NoiseSession} {p ad ciphertext : Bytes} {t peer : LoopbackTransport}

/-- A ciphertext is eight bytes longer than its plaintext, by the nonce at its head. -/
theorem length_of_encrypt (h : s.encrypt p ad = (.ok ciphertext, s')) :
    ciphertext.length = 8 + p.length := by
  unfold NoiseSession.encrypt at h
  split at h
  · cases h
  split at h
  · cases h
  cases h
  rw [List.length_append, Endian.length_ofUInt64, NoiseSession.xorStream, List.length_mapIdx]

/-- Between connected ends with a receiver a ciphertext can be sent on every channel just when its
plaintext leaves room for the nonce. -/
theorem sendable_iff (h : s.encrypt p ad = (.ok ciphertext, s')) (hconn : t.state = .connected)
    (hcb : peer.receiveCb = true) :
    (∀ channel, (t.send (some peer) channel ciphertext).1.ok = true) ↔ p.length ≤ 65527 := by
  have hlen := length_of_encrypt h
  constructor
  · intro hsend
    have hok := hsend .input
    rw [send_of_receiver hconn hcb] at hok
    by_contra hlong
    rw [if_pos (by rw [hlen, kMaxTransportMessage]; omega)] at hok
    cases hok
  · intro hshort channel
    rw [send_of_receiver hconn hcb, if_neg (by rw [hlen, kMaxTransportMessage]; omega)]
    rfl

/-- A session whose handshake is complete. -/
def completed : NoiseSession :=
  (((NoiseSession.create .kk .initiator {} (Vector.replicate 32 0)).writeMessage []).2.readMessage
    (List.replicate 32 1)).2

theorem encrypt_completed (h : p.length ≤ NoiseSession.maxMessage) :
    ∃ ciphertext s', completed.encrypt p [] = (.ok ciphertext, s') := by
  have hdone : ¬ (!completed.handshakeDone) = true := by decide
  rw [NoiseSession.encrypt, if_neg hdone, if_neg (Nat.not_lt.mpr h)]
  exact ⟨_, _, rfl⟩

theorem sendable_one : ∃ ciphertext s', completed.encrypt [7] [] = (.ok ciphertext, s') ∧
    ∀ channel, (send { state := .connected } (some { receiveCb := true }) channel
      ciphertext).1.ok = true := by
  obtain ⟨ciphertext, s', henc⟩ := encrypt_completed (p := [7]) (by decide)
  exact ⟨ciphertext, s', henc, (sendable_iff henc rfl rfl).mpr (by decide)⟩

/-- The shortest plaintext that can be encrypted but not sent. -/
theorem not_sendable : ∃ ciphertext s',
    completed.encrypt (List.replicate 65528 0) [] = (.ok ciphertext, s') ∧
      (send { state := .connected } (some { receiveCb := true }) .input ciphertext).1.ok =
        false := by
  have hlen : (List.replicate 65528 (0 : UInt8)).length = 65528 := List.length_replicate
  obtain ⟨ciphertext, s', henc⟩ :=
    encrypt_completed (p := List.replicate 65528 0) (by rw [hlen]; decide)
  refine ⟨ciphertext, s', henc, ?_⟩
  rw [send_of_receiver rfl rfl, if_pos]
  · rfl
  · rw [length_of_encrypt henc, hlen]
    decide

end Redesk.Transport
