import Redesk.Common.Types
import Redesk.Machine.Endian

/-! The Noise session of the default build: an exchange of static keys and an XOR cipher keyed by
them. It stands in for the real protocol and gives no secrecy. -/
namespace Redesk

/-- Non-cryptographic 64-bit FNV-1a. -/
def fnv1a (data : Bytes) : UInt64 :=
  data.foldl (fun h b => (h ^^^ b.toUInt64) * 1099511628211) 1469598103934665603

abbrev PublicKey := Vector UInt8 32
abbrev SecretKey := Vector UInt8 32

/-- A device's long-lived static identity; the secret half is there for the local device only. -/
structure Identity where
  publicKey : PublicKey := Vector.replicate 32 0
  secretKey : SecretKey := Vector.replicate 32 0
  hasSecret : Bool := false
  deriving DecidableEq, Repr

inductive NoisePattern where
  | xk | kk
  deriving DecidableEq, Repr

inductive HandshakeRole where
  | initiator | responder
  deriving DecidableEq, Repr

structure NoiseSession where
  pattern : NoisePattern
  role : HandshakeRole
  localStatic : Identity
  remoteStatic : PublicKey
  remoteKnown : Bool
  handshakeDone : Bool := false
  messagesWritten : Int32 := 0
  messagesRead : Int32 := 0
  sendNonce : UInt64 := 0
  recvNonce : UInt64 := 0
  deriving DecidableEq, Repr

namespace NoiseSession

def create (pattern : NoisePattern) (role : HandshakeRole) (localStatic : Identity)
    (remoteStatic : PublicKey) : NoiseSession where
  pattern := pattern
  role := role
  localStatic := localStatic
  remoteStatic := remoteStatic
  remoteKnown := decide (pattern = .kk)

/-- Largest plaintext of one transport message. -/
def maxMessage : ℕ := 65535

def maybeComplete (s : NoiseSession) : NoiseSession :=
  if s.remoteKnown ∧ 1 ≤ s.messagesWritten ∧ 1 ≤ s.messagesRead then
    { s with handshakeDone := true }
  else s

/-- A handshake message is the sender's static key followed by the payload. -/
def writeMessage (s : NoiseSession) (payload : Bytes) : Except Status Bytes × NoiseSession :=
  if s.handshakeDone then
    (.error (.error .invalidArgument "handshake already complete"), s)
  else
    (.ok (s.localStatic.publicKey.toList ++ payload),
      maybeComplete { s with messagesWritten := s.messagesWritten + 1 })

/-- The key at the head of a handshake message. -/
def senderKey (message : Bytes) (h : 32 ≤ message.length) : PublicKey :=
  Vector.ofFn fun i => message.get ⟨i, by omega⟩

def readMessage (s : NoiseSession) (message : Bytes) : Except Status Bytes × NoiseSession :=
  if s.handshakeDone then
    (.error (.error .invalidArgument "handshake already complete"), s)
  else if h : message.length < 32 then
    (.error (.error .invalidArgument "short handshake message"), s)
  else
    -- for either pattern, the key that came with the message replaces the one known before
    (.ok (message.drop 32),
      maybeComplete { s with
        remoteStatic := senderKey message (Nat.le_of_not_lt h)
        remoteKnown := true
        messagesRead := s.messagesRead + 1 })

def isHandshakeComplete (s : NoiseSession) : Bool := s.handshakeDone

/-- The channel binding: a hash of both static keys, the local one first. -/
def handshakeHash (s : NoiseSession) : Bytes :=
  Endian.ofUInt64 (fnv1a (s.localStatic.publicKey.toList ++ s.remoteStatic.toList))

def remoteStaticKey (s : NoiseSession) : PublicKey := s.remoteStatic

/-- The repeating key of the stream: both static keys, the local one first. -/
def streamKey (s : NoiseSession) : Vector UInt8 64 := s.localStatic.publicKey ++ s.remoteStatic

def xorStream (s : NoiseSession) (input : Bytes) (nonce : UInt64) : Bytes :=
  input.mapIdx fun i b =>
    b ^^^ (s.streamKey[i % 64] ^^^ ((nonce + UInt64.ofNat i) &&& 0xFF).toUInt8)

def encrypt (s : NoiseSession) (plaintext _ad : Bytes) : Except Status Bytes × NoiseSession :=
  if !s.handshakeDone then
    (.error (.error .invalidArgument "handshake not complete"), s)
  else if maxMessage < plaintext.length then
    (.error (.error .invalidArgument "plaintext exceeds 65535-byte Noise cap"), s)
  else
    let nonce := s.sendNonce
    (.ok (Endian.ofUInt64 nonce ++ s.xorStream plaintext nonce),
      { s with sendNonce := nonce + 1 })

def decrypt (s : NoiseSession) (ciphertext _ad : Bytes) : Except Status Bytes × NoiseSession :=
  if !s.handshakeDone then
    (.error (.error .invalidArgument "handshake not complete"), s)
  else if ciphertext.length < 8 then
    (.error (.error .invalidArgument "short ciphertext"), s)
  else
    let nonce := Endian.toUInt64 ciphertext
    if nonce < s.recvNonce then
      (.error (.error .permissionDenied "replayed/old nonce"), s)
    else
      (.ok (s.xorStream (ciphertext.drop 8) nonce), { s with recvNonce := nonce + 1 })

/-- One call on a session. -/
inductive Op where
  | writeMessage (payload : Bytes)
  | readMessage (message : Bytes)
  | encrypt (plaintext ad : Bytes)
  | decrypt (ciphertext ad : Bytes)
  deriving DecidableEq, Repr

def step (s : NoiseSession) : Op → Except Status Bytes × NoiseSession
  | .writeMessage payload => s.writeMessage payload
  | .readMessage message => s.readMessage message
  | .encrypt plaintext ad => s.encrypt plaintext ad
  | .decrypt ciphertext ad => s.decrypt ciphertext ad

end NoiseSession

end Redesk
