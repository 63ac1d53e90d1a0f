import Redesk.Rendezvous.Registry
import Redesk.Rendezvous.Signer
import Redesk.Machine.Past

/-! The rendezvous server: its handlers, one for each message that peers send, and its loop. -/
namespace Redesk.Rendezvous
open Server Machine

def kRegistryTtlSeconds : ℤ := 60

def kExpirySweepSeconds : ℤ := 15

/-- A pending candidate-broker session. -/
structure BrokerSession where
  callee : RedeskId := []
  callerEp : Endpoint := {}
  calleeEp : Endpoint := {}
  createdUnixS : ℤ := 0
  deriving DecidableEq, Repr

abbrev BrokerSessions := Std.ExtTreeMap String BrokerSession compare

/-- A length byte and as many bytes as it says. -/
def pushLv (v : Bytes) : Bytes :=
  let n := if 255 < v.length then 255 else v.length
  UInt8.ofNat n :: v.take n

/-- The body of a reply that introduces a peer. -/
def encodeAttestation (pk sig vk : Bytes) : Bytes := pushLv pk ++ pushLv sig ++ pushLv vk

def sendFrame (dst : Endpoint) (type : MessageType) (id : RedeskId) (body : Bytes) :
    Endpoint × Bytes :=
  (dst, encodeFrame { type := type, id := id, body := body })

/-- The record of a REGISTER: its endpoint is the observed source, not anything in the body. -/
def registration (src : Endpoint) (f : Frame) (now : ℤ) : PeerRecord where
  id := f.id
  endpoint := src
  staticPubkey := f.body.take kStaticPubKeyLen
  lastSeenUnixS := now

def handleRegister (signer : Signer) (map : Registry) (src : Endpoint) (f : Frame) (now : ℤ) :
    Option (Endpoint × Bytes) × Registry :=
  if f.body.length < kStaticPubKeyLen then (none, map)
  else
    let record := registration src f now
    let (s, map) := map.upsert record
    if !s.ok then (none, map)
    else
      let sig := signer.signPeerKey record.id record.staticPubkey
      if !sig.status.ok then (none, map)
      else (some (sendFrame src .registerOk f.id
        (encodeAttestation record.staticPubkey sig.value signer.verifyKey)), map)

/-- The id that a lookup asks for. -/
def lookupTarget (f : Frame) : RedeskId := if !f.id.isEmpty then f.id else f.body

def handleLookup (signer : Signer) (map : Registry) (src : Endpoint) (f : Frame) :
    Option (Endpoint × Bytes) :=
  match map.lookup (lookupTarget f) with
  | none => some (sendFrame src .lookupFail (lookupTarget f) [])
  | some rec =>
    let sig := signer.signPeerKey rec.id rec.staticPubkey
    if !sig.status.ok then none
    else some (sendFrame src .lookupOk (lookupTarget f)
      (encodeAttestation rec.staticPubkey sig.value signer.verifyKey))

/-- Relays the body as it is to where the target was last seen. -/
def handleBroker (map : Registry) (sessions : BrokerSessions) (src : Endpoint) (f : Frame)
    (now : ℤ) : Option (Endpoint × Bytes) × BrokerSessions :=
  match map.lookup f.id with
  | none => (some (sendFrame src .lookupFail f.id []), sessions)
  | some target =>
    let token := src.display ++ "|" ++ target.endpoint.display
    let sess := sessions.getD token {}
    let sess := if sess.createdUnixS = 0 then
        { sess with callerEp := src, callee := f.id, calleeEp := target.endpoint,
                    createdUnixS := now }
      else sess
    (some (sendFrame target.endpoint .brokerCandidates f.id f.body), sessions.insert token sess)

/-- Refreshes the binding from the observed source; an unknown id is ignored. -/
def handleKeepalive (map : Registry) (src : Endpoint) (f : Frame) (now : ℤ) : Registry :=
  match map.lookup f.id with
  | none => map
  | some rec => (map.upsert { rec with endpoint := src, lastSeenUnixS := now }).2

/-- The server between two rounds of its loop. -/
structure Loop where
  registry : Registry := ∅
  sessions : BrokerSessions := ∅
  lastSweep : ℤ

namespace Loop

/-- The frame that a datagram is dispatched as. -/
def frameOf (data : Bytes) : Option Frame :=
  let frame := decodeFrame data
  if frame.status.ok ∧ frame.value.type ≠ .unknown then some frame.value else none

def handle (signer : Signer) (s : Loop) (src : Endpoint) (data : Bytes) (now : ℤ) :
    Option (Endpoint × Bytes) × Loop :=
  match frameOf data with
  | none => (none, s)
  | some f =>
    match f.type with
    | .register =>
      let (out, registry) := handleRegister signer s.registry src f now
      (out, { s with registry := registry })
    | .keepalive => (none, { s with registry := handleKeepalive s.registry src f now })
    | .lookup => (handleLookup signer s.registry src f, s)
    | .brokerCandidates =>
      let (out, sessions) := handleBroker s.registry s.sessions src f now
      (out, { s with sessions := sessions })
    -- server-origin types are never inbound
    | _ => (none, s)

def sweep (s : Loop) (now : ℤ) : Loop :=
  if now - s.lastSweep ≥ kExpirySweepSeconds then
    { registry := (s.registry.expire now kRegistryTtlSeconds).2
      sessions := s.sessions.filter fun _ sess =>
        !decide (now - sess.createdUnixS > kRegistryTtlSeconds)
      lastSweep := now }
  else s

def step (signer : Signer) (s : Loop) : Event → Option (Endpoint × Bytes) × Loop
  | .datagram src data now sweepNow =>
    let (out, s) := handle signer s src data now
    (out, s.sweep sweepNow)
  | .nothing sweepNow => (none, s.sweep sweepNow)

abbrev Call := Machine.Call Loop Event (Option (Endpoint × Bytes))

abbrev Run (signer : Signer) : Loop → List Call → Loop → Prop := Machine.Run (step signer)

variable {signer : Signer} {s s₀ : Loop} {h : List Call} {e : Event} {src : Endpoint}
  {data : Bytes} {now sweepNow : ℤ} {f : Frame} {map : Registry}

theorem step_datagram : step signer s (.datagram src data now sweepNow) =
    ((handle signer s src data now).1, (handle signer s src data now).2.sweep sweepNow) := rfl

/-- The record that a frame offers to the registry. -/
def offered (map : Registry) (src : Endpoint) (f : Frame) (now : ℤ) : Option PeerRecord :=
  match f.type with
  | .register =>
    if f.body.length < kStaticPubKeyLen then none else some (registration src f now)
  | .keepalive =>
    (map.lookup f.id).map fun rec => { rec with endpoint := src, lastSeenUnixS := now }
  | _ => none

@[simp] theorem registration_id : (registration src f now).id = f.id := rfl

/-- All that a frame does to the registry is to offer one record to it. -/
def offer (map : Registry) : Option PeerRecord → Registry
  | none => map
  | some rec => (map.upsert rec).2

theorem registry_handleRegister :
    (handleRegister signer map src f now).2 =
      if f.body.length < kStaticPubKeyLen then map
      else (map.upsert (registration src f now)).2 := by
  unfold handleRegister
  split
  · rfl
  · dsimp only
    split
    · rfl
    · split <;> rfl

variable (signer) in
theorem registry_handle : (handle signer s src data now).2.registry =
    offer s.registry ((frameOf data).bind fun f => offered s.registry src f now) := by
  rw [handle]
  cases frameOf data with
  | none => rfl
  | some f =>
    rw [Option.bind_some, offered]
    cases hf : f.type with
    | register =>
      simp only [hf, registry_handleRegister]
      split <;> rfl
    | keepalive =>
      simp only [hf, handleKeepalive]
      cases s.registry.lookup f.id <;> rfl
    | _ => simp only [hf, offer]

/-- The reply to a frame, which depends on nothing of the server but its registry. -/
def reply (signer : Signer) (map : Registry) (src : Endpoint) (f : Frame) (now : ℤ) :
    Option (Endpoint × Bytes) :=
  match f.type with
  | .register => (handleRegister signer map src f now).1
  | .lookup => handleLookup signer map src f
  | .brokerCandidates => (handleBroker map ∅ src f now).1
  | _ => none

theorem reply_handle : (handle signer s src data now).1 =
    (frameOf data).bind fun f => reply signer s.registry src f now := by
  rw [handle]
  cases frameOf data with
  | none => rfl
  | some f =>
    rw [Option.bind_some, reply]
    cases hf : f.type with
    | brokerCandidates =>
      simp only [hf, handleBroker]
      cases s.registry.lookup f.id <;> rfl
    | _ => simp only [hf]

variable (s now) in
theorem registry_sweep : (s.sweep now).registry = s.registry ∨
    (s.sweep now).registry = (s.registry.expire now kRegistryTtlSeconds).2 := by
  unfold sweep
  split
  · exact .inr rfl
  · exact .inl rfl

/-- A binding that a sweep leaves in the registry is as it was. -/
theorem getElem?_sweep_of_ne_none {id : RedeskId} (h : (s.sweep now).registry[id]? ≠ none) :
    (s.sweep now).registry[id]? = s.registry[id]? := by
  rcases registry_sweep s now with heq | heq
  · rw [heq]
  · rw [heq, Registry.expire_eq_sweep] at h ⊢
    exact Expiry.getElem?_sweep_cases.resolve_right h

theorem getElem?_step_of_ne_none {id : RedeskId}
    (h : (step signer s (.datagram src data now sweepNow)).2.registry[id]? ≠ none) :
    (step signer s (.datagram src data now sweepNow)).2.registry[id]? =
      (offer s.registry ((frameOf data).bind fun f => offered s.registry src f now))[id]? := by
  rw [← registry_handle signer]
  exact getElem?_sweep_of_ne_none h

theorem owned_step (h : s.registry.Owned) : (step signer s e).2.registry.Owned := by
  have hsweep {s : Loop} (h : s.registry.Owned) (now : ℤ) : (s.sweep now).registry.Owned := by
    rcases registry_sweep s now with heq | heq
    · rw [heq]
      exact h
    · rw [heq]
      exact h.expire
  cases e with
  | nothing sweepNow => exact hsweep h sweepNow
  | datagram src data now sweepNow =>
    refine hsweep (s := (handle signer s src data now).2) ?_ sweepNow
    rw [registry_handle]
    cases (frameOf data).bind fun f => offered s.registry src f now with
    | none => exact h
    | some rec => exact h.upsert

theorem owned_run (hr : Run signer s₀ h s) (h0 : s₀.registry.Owned) : s.registry.Owned := by
  induction hr with
  | nil => exact h0
  | snoc hr e ih => exact owned_step ih

def peerRecord : PeerRecord :=
  { id := [9], endpoint := { port := 1 }, staticPubkey := List.replicate 32 5 }

/-- The server after the peer has registered. -/
def registered : Loop := final (step insecureTestSigner) { lastSweep := 0 }
  [.datagram { port := 1 }
    (encodeFrame { type := .register, id := [9], body := List.replicate 32 5 }) 0 0]

theorem getElem?_registered : registered.registry[([9] : RedeskId)]? = some peerRecord := by
  decide +kernel

end Loop

end Redesk.Rendezvous
