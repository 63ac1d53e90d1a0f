import Redesk.Machine.Lease
import Redesk.Rendezvous.Writes

/-! How long an id stays bound to its key: the binding is a lease, which Keepalives and repeated
REGISTERs renew, and which a sweep or a rival takes away when they stay out. -/
namespace Redesk.Rendezvous.Loop
open Server Machine

variable {signer : Signer} {s s₀ : Loop} {h : List Call} {e : Event} {src : Endpoint} {data : Bytes}
  {now : ℤ} {f : Frame} {id : RedeskId} {k : StaticPubKey} {r r₀ : PeerRecord} {c : Call}

/-- The key of a REGISTER that is long enough. -/
def registeredKey (f : Frame) : Option StaticPubKey :=
  if f.type = .register ∧ kStaticPubKeyLen ≤ f.body.length then some (f.body.take kStaticPubKeyLen)
  else none

/-- A frame that renews the binding of `id` to `k`. -/
def Renews (id : RedeskId) (k : StaticPubKey) (f : Frame) : Prop :=
  f.id = id ∧ (f.type = .keepalive ∨ registeredKey f = some k)

/-- A frame that asks for `id` with another key. -/
def Rivals (id : RedeskId) (k : StaticPubKey) (f : Frame) : Prop :=
  f.id = id ∧ ∃ k', registeredKey f = some k' ∧ k' ≠ k

instance : Decidable (Renews id k f) := inferInstanceAs (Decidable (_ ∧ _))

/-- Where the binding of `id` to `k` is renewed from, and when. -/
def renewal (id : RedeskId) (k : StaticPubKey) (c : Call) : Option (Endpoint × ℤ) :=
  match c.op with
  | .datagram src data now _ =>
    (frameOf data).bind fun f => if Renews id k f then some (src, now) else none
  | .nothing _ => none

/-- The binding of `id`, as long as it has the key `k`. -/
def binding (id : RedeskId) (k : StaticPubKey) (s : Loop) : Option (Endpoint × ℤ) :=
  (s.registry[id]?.filter fun r => decide (r.staticPubkey = k)).map fun r =>
    (r.endpoint, r.lastSeenUnixS)

/-- The call handles a frame that takes `id` from a binding that was last seen at `last`: one with
another key that comes after the squat window. -/
def Ousts (id : RedeskId) (k : StaticPubKey) (last : ℤ) : Event → Prop
  | .datagram _ data now _ =>
    ∃ f, frameOf data = some f ∧ Rivals id k f ∧ kSquatGuardWindowS ≤ now - last
  | .nothing _ => False

/-- The call takes away the binding that was last renewed as `v` says. -/
def Loses (id : RedeskId) (k : StaticPubKey) (c : Call) (v : Endpoint × ℤ) : Prop :=
  Ousts id k v.2 c.op ∨ Drops c.pre ((renewal id k c).getD v).2 c.op.sweepNow

/-- The record of a binding. -/
def bound (id : RedeskId) (k : StaticPubKey) (v : Endpoint × ℤ) : PeerRecord :=
  { id := id, endpoint := v.1, staticPubkey := k, lastSeenUnixS := v.2 }

theorem binding_eq_some {v : Endpoint × ℤ} (ho : s.registry.Owned) :
    binding id k s = some v ↔ s.registry[id]? = some (bound id k v) := by
  rw [binding, Option.map_eq_some_iff]
  constructor
  · rintro ⟨r, hr, rfl⟩
    obtain ⟨hget, hk⟩ := Option.filter_eq_some_iff.mp hr
    rw [hget, bound, ← (ho id r hget).1, ← of_decide_eq_true hk]
  · intro hr
    exact ⟨_, Option.filter_eq_some_iff.mpr ⟨hr, by simp [bound]⟩, rfl⟩

theorem binding_sweep : binding id k (s.sweep now) =
    (binding id k s).filter fun v => !decide (Drops s v.2 now) := by
  rw [binding, binding, getElem?_sweep]
  cases s.registry[id]? with
  | none => rfl
  | some r =>
    by_cases hk : r.staticPubkey = k <;> by_cases hd : Drops s r.lastSeenUnixS now <;>
      simp [Option.filter_some, hk, hd]

theorem registeredKey_eq_some : registeredKey f = some k ↔ f.type = .register ∧
    kStaticPubKeyLen ≤ f.body.length ∧ f.body.take kStaticPubKeyLen = k := by
  simp [registeredKey, and_assoc]

/-- A frame that renews a binding is taken, and writes it. -/
theorem written_of_renews {v : Endpoint × ℤ} {sweepNow : ℤ} (ho : s.registry.Owned)
    (hv : s.registry[id]? = some (bound id k v)) (hf : frameOf data = some f)
    (hr : Renews id k f) :
    written s (.datagram src data now sweepNow) = some (bound id k (src, now)) := by
  have ha : s.registry.Accepts (bound id k (src, now)) := ho.accepts_refresh hv src
  obtain ⟨rfl, ht | hk⟩ := hr
  · simp only [written, hf, Option.bind_some, offered, ht, Registry.lookup, hv, Option.map_some]
    exact Option.filter_eq_some_iff.mpr ⟨rfl, decide_eq_true ha⟩
  · obtain ⟨ht, hlen, rfl⟩ := registeredKey_eq_some.mp hk
    simp only [written, hf, Option.bind_some, offered, ht, if_neg (not_lt.mpr hlen)]
    exact Option.filter_eq_some_iff.mpr ⟨rfl, decide_eq_true ha⟩

theorem registeredKey_of_accepts (ht : f.type = .register)
    (ha : s.registry.Accepts (registration src f now)) :
    registeredKey f = some (registration src f now).staticPubkey := by
  refine registeredKey_eq_some.mpr ⟨ht, ?_, rfl⟩
  have hlen : (f.body.take kStaticPubKeyLen).length = kStaticPubKeyLen := ha.2.1
  rw [List.length_take] at hlen
  omega

theorem Renews.not_rivals (hr : Renews id k f) : ¬ Rivals id k f := by
  rintro ⟨-, k', hk', hne⟩
  obtain ⟨-, ht | hk⟩ := hr
  · rw [(registeredKey_eq_some.mp hk').1] at ht
    cases ht
  · exact hne (Option.some.inj (hk'.symm.trans hk))

variable (src) in
/-- A rival takes the id just when the squat window is over. -/
theorem accepts_rival_iff {v : Endpoint × ℤ} (ho : s.registry.Owned)
    (hv : s.registry[id]? = some (bound id k v)) (hr : Rivals id k f) :
    s.registry.Accepts (registration src f now) ↔ kSquatGuardWindowS ≤ now - v.2 := by
  obtain ⟨rfl, k', hk', hne⟩ := hr
  obtain ⟨ht, hlen, rfl⟩ := registeredKey_eq_some.mp hk'
  have hguard : s.registry.guarded (registration src f now) = true ↔
      now - v.2 < kSquatGuardWindowS := by
    rw [Registry.guarded_eq_true, registration_id, hv]
    simp [bound, registration, Ne.symm hne]
  rw [← not_lt, ← hguard, Registry.Accepts, Bool.not_eq_true]
  constructor
  · exact fun ha => ha.2.2
  · intro hg
    exact ⟨(ho _ _ hv).2.1, by simpa [registration] using hlen, hg⟩

theorem ousts_datagram {last sweepNow : ℤ} (hf : frameOf data = some f) :
    Ousts id k last (.datagram src data now sweepNow) ↔
      Rivals id k f ∧ kSquatGuardWindowS ≤ now - last := by
  simp [Ousts, hf]

theorem renewal_datagram {sweepNow : ℤ} (hf : frameOf data = some f) :
    renewal id k (call (step signer) s (.datagram src data now sweepNow)) =
      if Renews id k f then some (src, now) else none := by
  simp [renewal, hf]

theorem binding_of_written (hw : written s e = some r) (hid : r.id = id) :
    binding id k (handled signer s e) =
      if r.staticPubkey = k then some (r.endpoint, r.lastSeenUnixS) else none := by
  subst hid
  rw [binding, registry_handled, hw, Std.ExtTreeMap.getElem?_insert_self, Option.filter_some]
  by_cases hk : r.staticPubkey = k <;> simp [hk]

/-- A frame that neither renews a binding nor ousts it does not write its id. -/
theorem ne_of_written {v : Endpoint × ℤ} {sweepNow : ℤ} (ho : s.registry.Owned)
    (hv : s.registry[id]? = some (bound id k v)) (hf : frameOf data = some f)
    (hr : ¬ Renews id k f) (hlate : ¬ (Rivals id k f ∧ kSquatGuardWindowS ≤ now - v.2))
    (hw : written s (.datagram src data now sweepNow) = some r) : r.id ≠ id := by
  rintro rfl
  obtain ⟨src', data', now', sweepNow', f', he, hf', ha, hcase⟩ := written_cases hw
  cases he
  obtain rfl := Option.some.inj (hf.symm.trans hf')
  rcases hcase with ⟨ht, rfl⟩ | ⟨ht, r₀, hr₀, rfl⟩
  · have hkey := registeredKey_of_accepts ht ha
    by_cases hk : (registration src f now).staticPubkey = k
    · exact hr ⟨rfl, .inr (hk ▸ hkey)⟩
    · have hrivals : Rivals f.id k f := ⟨rfl, _, hkey, hk⟩
      exact hlate ⟨hrivals, (accepts_rival_iff src ho hv hrivals).mp ha⟩
  · exact hr ⟨(ho _ _ hr₀).1.symm, .inl ht⟩

variable (signer e) in
/-- What a datagram makes of a binding: a renewal writes it, a late rival ousts it, and every other
frame leaves it alone. -/
theorem lease_handled {v : Endpoint × ℤ} (ho : s.registry.Owned)
    (hv : binding id k s = some v) :
    Ousts id k v.2 e ∧ binding id k (handled signer s e) = none ∨
      ¬ Ousts id k v.2 e ∧ binding id k (handled signer s e) =
        some ((renewal id k (call (step signer) s e)).getD v) := by
  have hbound := (binding_eq_some ho).mp hv
  cases e with
  | nothing sweepNow => exact .inr ⟨not_false, hv⟩
  | datagram src data now sweepNow =>
    cases hf : frameOf data with
    | none => exact .inr ⟨by simp [Ousts, hf], by simpa [handled, handle, renewal, hf] using hv⟩
    | some f =>
      rw [ousts_datagram hf, renewal_datagram hf]
      by_cases hr : Renews id k f
      · refine .inr ⟨fun h => hr.not_rivals h.1, ?_⟩
        refine (binding_of_written (written_of_renews ho hbound hf hr) rfl).trans ?_
        simp [bound, hr]
      rw [if_neg hr]
      by_cases hlate : Rivals id k f ∧ kSquatGuardWindowS ≤ now - v.2
      · refine .inl ⟨hlate, ?_⟩
        have ha := (accepts_rival_iff src ho hbound hlate.1).mpr hlate.2
        obtain ⟨rfl, k', hk', hne⟩ := hlate.1
        obtain ⟨ht, hlen, rfl⟩ := registeredKey_eq_some.mp hk'
        have hw : written s (.datagram src data now sweepNow) = some (registration src f now) := by
          simp only [written, hf, Option.bind_some, offered, ht, if_neg (not_lt.mpr hlen)]
          exact Option.filter_eq_some_iff.mpr ⟨rfl, decide_eq_true ha⟩
        exact (binding_of_written hw rfl).trans (if_neg hne)
      · refine .inr ⟨hlate, ?_⟩
        rcases getElem?_handled signer s (.datagram src data now sweepNow) id with
          ⟨r, hw, hid, -⟩ | ⟨-, hsame⟩
        · exact absurd hid (ne_of_written ho hbound hf hr hlate hw)
        · rw [binding, hsame]
          exact hv

/-- A binding is a lease. -/
theorem binding_fares (ho : s.registry.Owned) :
    Lease.Fares (binding id k) (renewal id k) (Loses id k) (call (step signer) s e) := by
  intro v hv
  rw [call_post, step_post, binding_sweep]
  rcases lease_handled signer e ho hv with ⟨hlost, hnone⟩ | ⟨hkept, hsome⟩
  · exact .inl ⟨.inl hlost, by rw [hnone]; rfl⟩
  · rw [hsome, Option.filter_some]
    simp only [drops_handled]
    by_cases hd : Drops s ((renewal id k (call (step signer) s e)).getD v).2 e.sweepNow
    · exact .inl ⟨.inr hd, by simp [hd]⟩
    · exact .inr ⟨not_or.mpr ⟨hkept, hd⟩, by simp [hd]⟩

/-- The id is bound to the key. -/
def BoundTo (id : RedeskId) (k : StaticPubKey) (s : Loop) : Prop :=
  ∃ r, s.registry[id]? = some r ∧ r.staticPubkey = k

theorem boundTo_iff : BoundTo id k s ↔ binding id k s ≠ none := by
  rw [BoundTo, binding]
  cases s.registry[id]? <;> simp [Option.filter_some]

/-- Where the peer can be reached after the calls `h`, and when it was last heard of. -/
abbrev lastSeen (r₀ : PeerRecord) (h : List Call) : Endpoint × ℤ :=
  Lease.current (renewal r₀.id r₀.staticPubkey) (r₀.endpoint, r₀.lastSeenUnixS) h

/-- The answers that are given about a peer while it is bound by `r₀`. -/
structure Introduced (signer : Signer) (r₀ : PeerRecord) (h : List Call) : Prop where
  found : (signer.signPeerKey r₀.id r₀.staticPubkey).status.ok = true →
    ∀ c ∈ h, ∀ src data now sweepNow f, c.op = .datagram src data now sweepNow →
      frameOf data = some f → f.type = .lookup → lookupTarget f = r₀.id →
        c.res = some (sendFrame src .lookupOk r₀.id (encodeAttestation r₀.staticPubkey
          (signer.signPeerKey r₀.id r₀.staticPubkey).value signer.verifyKey))
  reached : ∀ a c b, h = a ++ c :: b → ∀ src data now sweepNow f,
    c.op = .datagram src data now sweepNow → frameOf data = some f →
      f.type = .brokerCandidates → f.id = r₀.id →
        c.res = some (sendFrame (lastSeen r₀ a).1 .brokerCandidates r₀.id f.body)
  refused : ∀ c ∈ h, ∀ src data now sweepNow f, c.op = .datagram src data now sweepNow →
    frameOf data = some f → Rivals r₀.id r₀.staticPubkey f → c.res = none

/-- What a peer that is bound by `r₀` can count on in the calls `h`. -/
structure Retained (signer : Signer) (r₀ : PeerRecord) (h : List Call) : Prop where
  lasts : (∀ c ∈ h, BoundTo r₀.id r₀.staticPubkey c.post) ↔
    Along (fun a c => ¬ Loses r₀.id r₀.staticPubkey c (lastSeen r₀ a)) h
  introduced : (∀ c ∈ h, BoundTo r₀.id r₀.staticPubkey c.post) → Introduced signer r₀ h

variable {a : List Call} {start : ℤ}

variable (id k) in
theorem fares_of_run (ho : s₀.registry.Owned) (hr : Run signer s₀ h s) :
    ∀ c ∈ h, Lease.Fares (binding id k) (renewal id k) (Loses id k) c := by
  intro c hc
  obtain ⟨a, b, rfl⟩ := List.append_of_mem hc
  obtain ⟨ha, hcall, -⟩ := hr.split
  rw [hcall]
  exact binding_fares (owned_run ha ho)

/-- While it is bound, the record of a peer says where it was last seen. -/
theorem getElem?_of_bound (ho : s₀.registry.Owned) (h0 : s₀.registry[r₀.id]? = some r₀)
    (hr : Run signer s₀ h s) (hb : ∀ c ∈ h, BoundTo r₀.id r₀.staticPubkey c.post) :
    s.registry[r₀.id]? = some (bound r₀.id r₀.staticPubkey (lastSeen r₀ h)) := by
  refine (binding_eq_some (owned_run hr ho)).mp ?_
  exact Lease.eq_current hr ((binding_eq_some ho).mpr h0)
    (fares_of_run r₀.id r₀.staticPubkey ho hr) fun c hc => boundTo_iff.mp (hb c hc)

/-- A peer stays bound just when it is renewed in time, and is introduced for as long. -/
theorem retained (ha : Run signer { lastSweep := start } a s₀)
    (h0 : s₀.registry[r₀.id]? = some r₀) (hr : Run signer s₀ h s) : Retained signer r₀ h := by
  have ho := owned_run ha Registry.owned_empty
  have hlasts : (∀ c ∈ h, BoundTo r₀.id r₀.staticPubkey c.post) ↔
      Along (fun a c => ¬ Loses r₀.id r₀.staticPubkey c (lastSeen r₀ a)) h := by
    simp only [boundTo_iff]
    exact Lease.lasts_iff hr ((binding_eq_some ho).mpr h0)
      (fares_of_run r₀.id r₀.staticPubkey ho hr)
  refine ⟨hlasts, fun hb => ?_⟩
  have hrecord (a c b) (hs : h = a ++ c :: b) : c = call (step signer) c.pre c.op ∧
      c.pre.registry.Owned ∧
        c.pre.registry[r₀.id]? = some (bound r₀.id r₀.staticPubkey (lastSeen r₀ a)) := by
    subst hs
    obtain ⟨ha, hcall, -⟩ := hr.split
    exact ⟨hcall, owned_run ha ho, getElem?_of_bound ho h0 ha fun d hd => hb d (by simp [hd])⟩
  constructor
  · intro hsig c hc src data now sweepNow f hop hf ht hid
    obtain ⟨a, b, hs⟩ := List.append_of_mem hc
    obtain ⟨hcall, -, hpre⟩ := hrecord a c b hs
    rw [hcall, call_res, hop, step_datagram, reply_handle, hf, Option.bind_some]
    simp only [reply, ht, handleLookup, Registry.lookup, hid, hpre, bound, hsig]
    rfl
  · intro a c b hs src data now sweepNow f hop hf ht hid
    obtain ⟨hcall, -, hpre⟩ := hrecord a c b hs
    rw [hcall, call_res, hop, step_datagram, reply_handle, hf, Option.bind_some]
    simp only [reply, ht, handleBroker, Registry.lookup, hid, hpre, bound]
  · intro c hc src data now sweepNow f hop hf hrivals
    obtain ⟨a, b, hs⟩ := List.append_of_mem hc
    obtain ⟨hcall, ho, hpre⟩ := hrecord a c b hs
    obtain ⟨k', hk', -⟩ := hrivals.2
    obtain ⟨hkept, -⟩ := not_or.mp (hlasts.mp hb a c b hs)
    rw [hop, ousts_datagram hf] at hkept
    have hrefused := mt (accepts_rival_iff src ho hpre hrivals).mp
      fun hlate => hkept ⟨hrivals, hlate⟩
    rw [hcall, call_res, hop, step_datagram, reply_handle, hf, Option.bind_some,
      reply_register (registeredKey_eq_some.mp hk').1]
    exact if_neg fun htaken => hrefused htaken.2

/-- An id that a rival asks for and that a lookup finds. -/
theorem retained_registered : Retained insecureTestSigner peerRecord
    (calls (step insecureTestSigner) registered
      [.datagram { port := 2 }
        (encodeFrame { type := .register, id := [9], body := List.replicate 32 6 }) 59 59,
      .datagram { port := 1 } (encodeFrame { type := .keepalive, id := [9] }) 60 60,
      .datagram { port := 3 } (encodeFrame { type := .lookup, id := [9] }) 100 100]) :=
  retained (run_calls _ _) getElem?_registered (run_calls _ _)

end Redesk.Rendezvous.Loop
