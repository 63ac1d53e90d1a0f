import Redesk.Rendezvous.Protocol

/-! The signed introducer: a signer in general, and the one of the default build. -/
namespace Redesk.Rendezvous

structure Signer where
  verifyKey : Bytes
  signPeerKey : RedeskId → StaticPubKey → Result Bytes

def kEd25519SigLen : ℕ := 64

/-- `REDESK-INTRO-v1` -/
def kIntroDomain : Bytes :=
  [0x52, 0x45, 0x44, 0x45, 0x53, 0x4B, 0x2D, 0x49, 0x4E, 0x54, 0x52, 0x4F, 0x2D, 0x76, 0x31]

/-- The message that is signed. -/
def introMessage (id : RedeskId) (pk : StaticPubKey) : Bytes := kIntroDomain ++ id ++ pk

namespace InsecureTestSigner

/-- `INSECURE-TEST-ONLY-RENDEZVOUS-KY` -/
def verifyKey : Bytes :=
  [0x49, 0x4E, 0x53, 0x45, 0x43, 0x55, 0x52, 0x45, 0x2D, 0x54, 0x45, 0x53, 0x54, 0x2D, 0x4F, 0x4E,
    0x4C, 0x59, 0x2D, 0x52, 0x45, 0x4E, 0x44, 0x45, 0x5A, 0x56, 0x4F, 0x55, 0x53, 0x2D, 0x4B, 0x59]

/-- One byte of the message, the `i`-th, mixed into the running hash and the signature. -/
def mix (acc : UInt64 × Bytes) (b : UInt8) (i : ℕ) : UInt64 × Bytes :=
  let h := (acc.1 ^^^ b.toUInt64) * 1099511628211
  (h, acc.2.modify (i % kEd25519SigLen) fun s => s ^^^ (h &&& 0xFF).toUInt8)

/-- A deterministic mix of the message, with a visible `FAKE` over its first bytes. -/
def signPeerKey (id : RedeskId) (pk : StaticPubKey) : Result Bytes :=
  if pk.length ≠ kStaticPubKeyLen then .fail .invalidArgument "static pubkey must be 32 bytes"
  else
    let mixed := (introMessage id pk).zipIdx.foldl (fun acc p => mix acc p.1 p.2)
      (1469598103934665603, List.replicate kEd25519SigLen 0)
    .good ([0x46, 0x41, 0x4B, 0x45] ++ mixed.2.drop 4)

end InsecureTestSigner

def insecureTestSigner : Signer where
  verifyKey := InsecureTestSigner.verifyKey
  signPeerKey := InsecureTestSigner.signPeerKey

end Redesk.Rendezvous
