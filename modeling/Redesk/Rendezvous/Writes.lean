import Redesk.Rendezvous.Codec
import Redesk.Rendezvous.Loop

/-! What one round of the loop can do: the record it writes, the frame it answers with or relays,
and what its sweep leaves. -/
namespace Redesk.Rendezvous.Loop
open Server Machine

variable {signer : Signer} {s : Loop} {e : Event} {src dst : Endpoint} {data out : Bytes} {now : ℤ}
  {f : Frame} {map : Registry} {id : RedeskId} {k : StaticPubKey} {r : PeerRecord}

/-- A datagram that is dispatched starts with the encoding of its frame. -/
theorem frameOf_fits (h : frameOf data = some f) :
    f.Fits ∧ ∃ rest, data = encodeFrame f ++ rest := by
  unfold frameOf at h
  dsimp only at h
  split at h
  · rename_i hd
    obtain rfl := Option.some.inj h
    rcases decodeFrame_cases data with ⟨t, rest, -, -, hu⟩ | ⟨f, rest, hf, rfl⟩ | ⟨hcode, -⟩
    · rw [hu] at hd
      exact absurd rfl hd.2
    · rw [decodeFrame_of_fits hf]
      exact ⟨hf, rest, rfl⟩
    · simp [Status.ok, hcode] at hd
  · cases h

/-- The id whose binding a frame is about. -/
def target (f : Frame) : RedeskId := if f.type = .lookup then lookupTarget f else f.id

/-- What a registry gets from a frame, in three cases. -/
theorem offered_cases (map : Registry) (src : Endpoint) (f : Frame) (now : ℤ) :
    offered map src f now = none ∨
    (f.type = .register ∧ kStaticPubKeyLen ≤ f.body.length ∧
      offered map src f now = some (registration src f now)) ∨
    ∃ r, f.type = .keepalive ∧ map[f.id]? = some r ∧
      offered map src f now = some { r with endpoint := src, lastSeenUnixS := now } := by
  unfold offered
  cases hf : f.type with
  | register =>
    by_cases hlen : f.body.length < kStaticPubKeyLen
    · exact .inl (if_pos hlen)
    · exact .inr (.inl ⟨rfl, Nat.le_of_not_lt hlen, if_neg hlen⟩)
  | keepalive =>
    cases hl : map[f.id]? with
    | none => exact .inl (by simp [Registry.lookup, hl])
    | some r => exact .inr (.inr ⟨r, rfl, rfl, by simp [Registry.lookup, hl]⟩)
  | _ => exact .inl rfl

/-- The loop after the datagram of a round, before its sweep. -/
def handled (signer : Signer) (s : Loop) : Event → Loop
  | .datagram src data now _ => (handle signer s src data now).2
  | .nothing _ => s

theorem step_post : (step signer s e).2 = (handled signer s e).sweep e.sweepNow := by
  cases e <;> rfl

@[simp] theorem lastSweep_handled : (handled signer s e).lastSweep = s.lastSweep := by
  cases e with
  | nothing sweepNow => rfl
  | datagram src data now sweepNow =>
    rw [handled, handle]
    cases frameOf data with
    | none => rfl
    | some f => cases hf : f.type <;> simp only [hf]

/-- The record that a round writes. -/
def written (s : Loop) : Event → Option PeerRecord
  | .datagram src data now _ => (frameOf data).bind fun f =>
      (offered s.registry src f now).filter fun r => decide (s.registry.Accepts r)
  | .nothing _ => none

theorem written_cases (h : written s e = some r) : ∃ src data now sweepNow f,
    e = .datagram src data now sweepNow ∧ frameOf data = some f ∧ s.registry.Accepts r ∧
      (f.type = .register ∧ r = registration src f now ∨
        f.type = .keepalive ∧ ∃ r₀, s.registry[f.id]? = some r₀ ∧
          r = { r₀ with endpoint := src, lastSeenUnixS := now }) := by
  cases e with
  | nothing sweepNow => cases h
  | datagram src data now sweepNow =>
    obtain ⟨f, hf, hr⟩ := Option.bind_eq_some_iff.mp h
    obtain ⟨ho, ha⟩ := Option.filter_eq_some_iff.mp hr
    refine ⟨src, data, now, sweepNow, f, rfl, hf, of_decide_eq_true ha, ?_⟩
    rcases offered_cases s.registry src f now with hn | ⟨ht, -, hsome⟩ | ⟨r₀, ht, hr₀, hsome⟩
    · rw [hn] at ho
      cases ho
    · exact .inl ⟨ht, Option.some.inj (ho.symm.trans hsome)⟩
    · exact .inr ⟨ht, r₀, hr₀, Option.some.inj (ho.symm.trans hsome)⟩

variable (signer s e) in
theorem registry_handled : (handled signer s e).registry =
    match written s e with
    | some r => s.registry.insert r.id r
    | none => s.registry := by
  cases e with
  | nothing sweepNow => rfl
  | datagram src data now sweepNow =>
    show (handle signer s src data now).2.registry = _
    rw [registry_handle, written]
    cases frameOf data with
    | none => rfl
    | some f =>
      simp only [Option.bind_some]
      cases offered s.registry src f now with
      | none => rfl
      | some r =>
        rw [offer, Option.filter_some]
        by_cases ha : s.registry.Accepts r
        · rw [Registry.upsert_of_accepts ha, if_pos (decide_eq_true ha)]
        · rw [(Registry.upsert_of_not_accepts ha).2, if_neg (by simpa using ha)]

variable (signer s e id) in
/-- A binding is the record that the round writes for its id, or as it was. -/
theorem getElem?_handled :
    (∃ r, written s e = some r ∧ r.id = id ∧ (handled signer s e).registry[id]? = some r) ∨
    (∀ r, written s e = some r → r.id ≠ id) ∧
      (handled signer s e).registry[id]? = s.registry[id]? := by
  rw [registry_handled]
  cases hw : written s e with
  | none => exact .inr ⟨by simp, rfl⟩
  | some r =>
    by_cases hid : r.id = id
    · subst hid
      exact .inl ⟨r, rfl, rfl, Std.ExtTreeMap.getElem?_insert_self⟩
    · refine .inr ⟨?_, ?_⟩
      · intro r' hr'
        obtain rfl := Option.some.inj hr'
        exact hid
      · simp [Std.ExtTreeMap.getElem?_insert, hid]

/-- The sweep of a round is due. -/
def Due (s : Loop) (now : ℤ) : Prop := now - s.lastSweep ≥ kExpirySweepSeconds

instance : Decidable (Due s now) := inferInstanceAs (Decidable (_ ≥ _))

/-- The sweep of the round is due, and finds a value of the time `last` that is too old. -/
def Drops (s : Loop) (last sweepNow : ℤ) : Prop :=
  Due s sweepNow ∧ kRegistryTtlSeconds < sweepNow - last

instance {last sweepNow : ℤ} : Decidable (Drops s last sweepNow) :=
  inferInstanceAs (Decidable (_ ∧ _))

theorem drops_handled {last : ℤ} : Drops (handled signer s e) last now ↔ Drops s last now := by
  rw [Drops, Drops, Due, Due, lastSweep_handled]

theorem getElem?_sweep : (s.sweep now).registry[id]? =
    s.registry[id]?.filter fun r => !decide (Drops s r.lastSeenUnixS now) := by
  unfold sweep
  split
  · rename_i hdue
    have hdrops (last : ℤ) : Drops s last now ↔ now - last > kRegistryTtlSeconds :=
      and_iff_right hdue
    simp only [hdrops]
    rw [Registry.expire_eq_sweep, Expiry.getElem?_sweep]
    rfl
  · rename_i hdue
    have hdrops (last : ℤ) : ¬ Drops s last now := fun h => hdue h.1
    cases s.registry[id]? <;> simp [hdrops, Option.filter_some]

theorem getElem?_sessions_sweep {token : String} : (s.sweep now).sessions[token]? =
    s.sessions[token]?.filter fun b => !decide (Drops s b.createdUnixS now) := by
  unfold sweep
  split
  · rename_i hdue
    have hdrops (last : ℤ) : Drops s last now ↔ now - last > kRegistryTtlSeconds :=
      and_iff_right hdue
    simp only [hdrops]
    exact Expiry.getElem?_sweep
  · rename_i hdue
    have hdrops (last : ℤ) : ¬ Drops s last now := fun h => hdue h.1
    cases s.sessions[token]? <;> simp [hdrops, Option.filter_some]

/-- A binding that is not past its time to live stays when the sweep is due. -/
theorem getElem?_sweep_of_live (hr : s.registry[id]? = some r)
    (h : Due s now → now - r.lastSeenUnixS ≤ kRegistryTtlSeconds) :
    (s.sweep now).registry[id]? = some r := by
  unfold sweep
  split
  · rename_i hdue
    rw [Registry.expire_eq_sweep, Expiry.getElem?_sweep_of_fresh, hr]
    intro r' hr'
    obtain rfl := Option.some.inj (hr.symm.trans hr')
    exact Registry.fresh_iff.mpr (not_lt.mpr (h hdue))
  · exact hr

/-- A binding that the sweep of a round leaves was there before the sweep. -/
theorem handled_of_post (hr : (step signer s e).2.registry[id]? = some r) :
    (handled signer s e).registry[id]? = some r := by
  rw [step_post] at hr
  exact (getElem?_sweep_of_ne_none (by rw [hr]; simp)).symm.trans hr

/-- The call handles a REGISTER for `id` with the key `k`, and the registry takes it. -/
def Registers (id : RedeskId) (k : StaticPubKey) (c : Call) : Prop :=
  ∃ src data now sweepNow f, c.op = .datagram src data now sweepNow ∧ frameOf data = some f ∧
    f.type = .register ∧ f.id = id ∧ f.body.take kStaticPubKeyLen = k ∧
      (c.pre.registry.upsert (registration src f now)).1.ok = true

theorem Registers.written {c : Call} (h : Registers id k c) :
    ∃ r, written c.pre c.op = some r ∧ r.id = id ∧ r.staticPubkey = k := by
  obtain ⟨src, data, now, sweepNow, f, hop, hf, ht, rfl, rfl, hok⟩ := h
  have ha := Registry.upsert_ok_iff.mp hok
  refine ⟨registration src f now, ?_, rfl, rfl⟩
  have hlen : ¬ f.body.length < kStaticPubKeyLen := by
    have hkey : (f.body.take kStaticPubKeyLen).length = kStaticPubKeyLen := ha.2.1
    rw [List.length_take] at hkey
    omega
  rw [hop]
  simp only [Loop.written, hf, Option.bind_some, offered, ht, if_neg hlen]
  exact Option.filter_eq_some_iff.mpr ⟨rfl, decide_eq_true ha⟩

/-- The introduction that is sent back for a record that was taken. -/
def introduction (signer : Signer) (src : Endpoint) (f : Frame) : Option (Endpoint × Bytes) :=
  let pk := f.body.take kStaticPubKeyLen
  let sig := signer.signPeerKey f.id pk
  if !sig.status.ok then none
  else some (sendFrame src .registerOk f.id (encodeAttestation pk sig.value signer.verifyKey))

theorem reply_register (ht : f.type = .register) : reply signer map src f now =
    if kStaticPubKeyLen ≤ f.body.length ∧ map.Accepts (registration src f now) then
      introduction signer src f
    else none := by
  simp only [reply, ht, handleRegister]
  by_cases hlen : f.body.length < kStaticPubKeyLen
  · simp [hlen]
  · by_cases ha : map.Accepts (registration src f now)
    · simp only [hlen, Nat.le_of_not_lt hlen, ha, Registry.upsert_ok_iff.mpr ha, if_false, if_true,
        true_and, Bool.not_true, Bool.false_eq_true]
      split
      · rename_i hsig
        exact (if_pos hsig).symm
      · rename_i hsig
        exact (if_neg hsig).symm
    · simp [hlen, ha, (Registry.upsert_of_not_accepts ha).1]

/-- The frames that the server sends, each with where it goes. -/
inductive Answer (signer : Signer) (map : Registry) (src : Endpoint) (f : Frame) (now : ℤ) :
    Endpoint → Frame → Prop where
  | registered (type : f.type = .register) (taken : map.Accepts (registration src f now))
      (signed : (signer.signPeerKey f.id (f.body.take kStaticPubKeyLen)).status.ok = true) :
      Answer signer map src f now src
        { type := .registerOk, id := f.id, body := encodeAttestation (f.body.take kStaticPubKeyLen)
            (signer.signPeerKey f.id (f.body.take kStaticPubKeyLen)).value signer.verifyKey }
  | found {r : PeerRecord} (type : f.type = .lookup) (bound : map[lookupTarget f]? = some r)
      (signed : (signer.signPeerKey r.id r.staticPubkey).status.ok = true) :
      Answer signer map src f now src
        { type := .lookupOk, id := lookupTarget f, body := encodeAttestation r.staticPubkey
            (signer.signPeerKey r.id r.staticPubkey).value signer.verifyKey }
  | missing (type : f.type = .lookup ∨ f.type = .brokerCandidates) (free : map[target f]? = none) :
      Answer signer map src f now src { type := .lookupFail, id := target f }
  | relayed {r : PeerRecord} (type : f.type = .brokerCandidates) (bound : map[f.id]? = some r) :
      Answer signer map src f now r.endpoint
        { type := .brokerCandidates, id := f.id, body := f.body }

/-- What is sent in reply to a frame is the encoding of one of its answers. -/
theorem reply_answer (h : reply signer map src f now = some (dst, out)) :
    ∃ g, out = encodeFrame g ∧ Answer signer map src f now dst g := by
  cases ht : f.type with
  | register =>
    rw [reply_register ht] at h
    split at h
    · rename_i htaken
      unfold introduction at h
      dsimp only at h
      split at h
      · cases h
      · rename_i hsig
        cases h
        exact ⟨_, rfl, .registered ht htaken.2 (by simpa using hsig)⟩
    · cases h
  | lookup =>
    simp only [reply, ht, handleLookup, Registry.lookup] at h
    cases hr : map[lookupTarget f]? with
    | none =>
      simp only [hr] at h
      cases h
      have htarget : target f = lookupTarget f := by simp [target, ht]
      refine ⟨{ type := .lookupFail, id := lookupTarget f }, rfl, ?_⟩
      rw [← htarget] at hr ⊢
      exact .missing (.inl ht) hr
    | some r =>
      simp only [hr] at h
      split at h
      · cases h
      · rename_i hsig
        cases h
        exact ⟨_, rfl, .found ht hr (by simpa using hsig)⟩
  | brokerCandidates =>
    simp only [reply, ht, handleBroker, Registry.lookup] at h
    cases hr : map[f.id]? with
    | none =>
      simp only [hr] at h
      cases h
      have htarget : target f = f.id := by simp [target, ht]
      refine ⟨{ type := .lookupFail, id := f.id }, rfl, ?_⟩
      rw [← htarget] at hr ⊢
      exact .missing (.inr ht) hr
    | some r =>
      simp only [hr] at h
      cases h
      exact ⟨_, rfl, .relayed ht hr⟩
  | _ => simp [reply, ht] at h

/-- What a datagram with a frame in it makes the server send is an answer to that frame. -/
theorem answer_of_frame (hf : frameOf data = some f)
    (h : (handle signer s src data now).1 = some (dst, out)) :
    ∃ g, out = encodeFrame g ∧ Answer signer s.registry src f now dst g := by
  rw [reply_handle, hf] at h
  exact reply_answer h

/-- All that the server sends is an answer to a frame. -/
theorem step_eq_some (h : (step signer s e).1 = some (dst, out)) : ∃ src data now sweepNow f g,
    e = .datagram src data now sweepNow ∧ frameOf data = some f ∧ out = encodeFrame g ∧
      Answer signer s.registry src f now dst g := by
  cases e with
  | nothing sweepNow => cases h
  | datagram src data now sweepNow =>
    cases hf : frameOf data with
    | none =>
      rw [step_datagram, reply_handle, hf] at h
      cases h
    | some f =>
      obtain ⟨g, hg, ha⟩ := answer_of_frame hf h
      exact ⟨src, data, now, sweepNow, f, g, rfl, hf, hg, ha⟩

end Redesk.Rendezvous.Loop
