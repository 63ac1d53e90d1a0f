import Redesk.Common.Types

/-! Control frames of the rendezvous server: `[u8 type][u8 id_len][id][u16 body_len][body]`. -/
namespace Redesk.Rendezvous

/-- A routing handle, not the cryptographic identity of a peer. -/
abbrev RedeskId := Bytes

/-- A static public key as it is stored and forwarded: any bytes. -/
abbrev StaticPubKey := Bytes

def kStaticPubKeyLen : ℕ := 32

inductive MessageType where
  | unknown | register | registerOk | lookup | lookupOk | lookupFail | brokerCandidates | keepalive
  deriving DecidableEq, Repr, Inhabited

namespace MessageType

def toByte : MessageType → UInt8
  | unknown => 0
  | register => 1
  | registerOk => 2
  | lookup => 3
  | lookupOk => 4
  | lookupFail => 5
  | brokerCandidates => 6
  | keepalive => 7

def ofByte (t : UInt8) : MessageType :=
  if t = 1 then register
  else if t = 2 then registerOk
  else if t = 3 then lookup
  else if t = 4 then lookupOk
  else if t = 5 then lookupFail
  else if t = 6 then brokerCandidates
  else if t = 7 then keepalive
  else unknown

theorem toByte_injective : Function.Injective toByte := by
  intro t t' h
  cases t <;> cases t' <;> first | rfl | cases h

end MessageType

def kMaxType : UInt8 := MessageType.keepalive.toByte

structure Frame where
  type : MessageType := .unknown
  id : RedeskId := []
  body : Bytes := []
  deriving DecidableEq, Repr, Inhabited

/-- A type out of range decodes as unknown, for the caller to drop. -/
def decodeFrame : Bytes → Result Frame
  | [] => .fail .invalidArgument "short frame: type"
  | t :: rest =>
    if t = 0 ∨ kMaxType < t then .good {}
    else
      match rest with
      | [] => .fail .invalidArgument "short frame: id_len"
      | idLen :: rest =>
        if rest.length < idLen.toNat then .fail .invalidArgument "short frame: id"
        else
          match rest.drop idLen.toNat with
          | high :: low :: tail =>
            let bodyLen := (high.toUInt16 <<< 8 ||| low.toUInt16).toNat
            if tail.length < bodyLen then .fail .invalidArgument "short frame: body"
            else .good
              { type := .ofByte t, id := rest.take idLen.toNat, body := tail.take bodyLen }
          | _ => .fail .invalidArgument "short frame: body_len"

/-- What does not fit the length fields is cut off. -/
def encodeFrame (f : Frame) : Bytes :=
  let idLen := if 255 < f.id.length then 255 else UInt8.ofNat f.id.length
  let bodyLen := if 0xFFFF < f.body.length then 0xFFFF else UInt16.ofNat f.body.length
  f.type.toByte :: idLen :: (f.id.take idLen.toNat ++
    (bodyLen >>> 8).toUInt8 :: (bodyLen &&& 0xFF).toUInt8 :: f.body.take bodyLen.toNat)

/-- The first byte of a frame tells its type. -/
theorem type_of_encodeFrame_eq {f f' : Frame} (h : encodeFrame f = encodeFrame f') :
    f.type = f'.type :=
  MessageType.toByte_injective (List.cons_eq_cons.mp h).1

end Redesk.Rendezvous
