import Redesk.Rendezvous.Loop

/-! What datagrams from elsewhere can do to the binding of a live peer. -/
namespace Redesk.Rendezvous.Loop
open Server Machine

variable {signer : Signer} {s s' : Loop} {h h₀ : List Call} {op : Event} {e : Endpoint}
  {k : StaticPubKey} {id : RedeskId}

/-- A round that the peer of `id`, at `e` with the key `k`, has no part in and during which its
binding is live and stays in the registry. -/
structure OffPath (id : RedeskId) (e : Endpoint) (k : StaticPubKey) (c : Call) : Prop where
  source : ∀ src data now sweepNow, c.op = .datagram src data now sweepNow → src ≠ e
  key : ∀ src data now sweepNow f, c.op = .datagram src data now sweepNow →
    frameOf data = some f → f.type = .register → f.id = id → f.body.take kStaticPubKeyLen ≠ k
  live : ∀ src data now sweepNow, c.op = .datagram src data now sweepNow →
    ∀ r, c.pre.registry[id]? = some r → now - r.lastSeenUnixS < kSquatGuardWindowS
  stays : c.post.registry[id]? ≠ none

/-- The binding is the same after the call, and what is brokered to `id` goes to `e`. -/
structure Kept (id : RedeskId) (e : Endpoint) (k : StaticPubKey) (c : Call) : Prop where
  binding : ∀ r, c.post.registry[id]? = some r → r.endpoint = e ∧ r.staticPubkey = k
  brokered : ∀ src data now sweepNow f, c.op = .datagram src data now sweepNow →
    frameOf data = some f → f.type = .brokerCandidates → f.id = id →
      c.res = some (sendFrame e .brokerCandidates id f.body)

/-- The call handles a Keepalive frame for `id`. -/
def KeptAlive (id : RedeskId) (c : Call) : Prop :=
  ∃ src data now sweepNow f, c.op = .datagram src data now sweepNow ∧ frameOf data = some f ∧
    f.type = .keepalive ∧ f.id = id

/-- The binding of `id` before a call. -/
def Bound (id : RedeskId) (e : Endpoint) (k : StaticPubKey) (s : Loop) : Prop :=
  s.registry.Owned ∧ ∃ r, s.registry[id]? = some r ∧ r.endpoint = e ∧ r.staticPubkey = k

variable {src : Endpoint} {data : Bytes} {now sweepNow : ℤ} {f : Frame}

/-- Without a Keepalive for `id`, a frame from elsewhere leaves its binding as it is. -/
theorem entry_of_offPath (hb : Bound id e k s)
    (hkey : f.type = .register → f.id = id → f.body.take kStaticPubKeyLen ≠ k)
    (hlive : ∀ r, s.registry[id]? = some r → now - r.lastSeenUnixS < kSquatGuardWindowS)
    (hn : ¬ (f.type = .keepalive ∧ f.id = id)) :
    (offer s.registry (offered s.registry src f now))[id]? = s.registry[id]? := by
  obtain ⟨howned, r, hr, rfl, rfl⟩ := hb
  unfold offered
  cases hf : f.type with
  | register =>
    simp only
    split
    · rfl
    · by_cases hid : f.id = id
      · -- the squat guard: the binding is live and the key is another one
        have hguarded : ¬ s.registry.Accepts (registration src f now) := by
          rintro ⟨-, -, hg⟩
          have hprior : s.registry[(registration src f now).id]? = some r := by
            rw [registration, hid]
            exact hr
          rw [Registry.guarded_eq_true.mpr ⟨r, hprior, hlive r hr, (hkey hf hid).symm⟩] at hg
          cases hg
        rw [offer, (Registry.upsert_of_not_accepts hguarded).2]
      · exact Registry.getElem?_upsert_of_ne hid
  | keepalive =>
    simp only
    cases hl : s.registry.lookup f.id with
    | none => rfl
    | some r' =>
      apply Registry.getElem?_upsert_of_ne
      intro hid
      exact hn ⟨hf, (howned f.id r' hl).1.symm.trans hid⟩
  | _ => rfl

variable (src now) in
/-- A Keepalive for `id` moves its binding to where it comes from. -/
theorem entry_of_keepalive (hb : Bound id e k s) (hf : f.type = .keepalive) (hid : f.id = id) :
    ∃ r, (offer s.registry (offered s.registry src f now))[id]? = some r ∧ r.endpoint = src := by
  obtain ⟨howned, r, hr, rfl, rfl⟩ := hb
  obtain ⟨hown, -⟩ := howned id r hr
  subst hid
  have hoffered : offered s.registry src f now =
      some { r with endpoint := src, lastSeenUnixS := now } := by
    rw [offered, hf, Registry.lookup, hr]
    rfl
  rw [hoffered, offer, Registry.upsert_of_accepts (howned.accepts_refresh hr src)]
  exact ⟨_, by rw [← hown]; exact Std.ExtTreeMap.getElem?_insert_self, rfl⟩

/-- What is brokered to `id` goes to where its binding says. -/
theorem brokered_of_bound (hb : Bound id e k s) (hf : frameOf data = some f)
    (ht : f.type = .brokerCandidates) (hid : f.id = id) :
    (handle signer s src data now).1 = some (sendFrame e .brokerCandidates id f.body) := by
  obtain ⟨-, r, hr, rfl, -⟩ := hb
  subst hid
  simp only [handle, hf, ht, handleBroker, Registry.lookup, hr]

/-- A round from elsewhere without a Keepalive for `id` leaves its binding. -/
theorem bound_step (hb : Bound id e k s) (ho : OffPath id e k (call (step signer) s op))
    (hn : ¬ KeptAlive id (call (step signer) s op)) : Bound id e k (step signer s op).2 := by
  have hsame : (step signer s op).2.registry[id]? = s.registry[id]? := by
    cases op with
    | nothing sweepNow => exact getElem?_sweep_of_ne_none ho.stays
    | datagram src data now sweepNow =>
      refine (getElem?_step_of_ne_none ho.stays).trans ?_
      cases hf : frameOf data with
      | none => rfl
      | some f =>
        exact entry_of_offPath hb (ho.key src data now sweepNow f rfl hf)
          (ho.live src data now sweepNow rfl) fun hk =>
            hn ⟨src, data, now, sweepNow, f, rfl, hf, hk.1, hk.2⟩
  obtain ⟨howned, r, hr, he, hk⟩ := hb
  exact ⟨owned_step howned, r, hsame.trans hr, he, hk⟩

theorem kept_iff_step (hb : Bound id e k s) (ho : OffPath id e k (call (step signer) s op)) :
    Kept id e k (call (step signer) s op) ↔ ¬ KeptAlive id (call (step signer) s op) := by
  constructor
  · rintro hkept ⟨src, data, now, sweepNow, f, hop, hf, ht, hid⟩
    have hsrc := ho.source src data now sweepNow hop
    rw [call_op] at hop
    subst hop
    obtain ⟨r, hr, hendpoint⟩ := entry_of_keepalive src now hb ht hid
    have hpost : (step signer s (.datagram src data now sweepNow)).2.registry[id]? = some r := by
      refine (getElem?_step_of_ne_none ho.stays).trans ?_
      rw [hf]
      exact hr
    exact hsrc (hendpoint.symm.trans (hkept.binding r hpost).1)
  · intro hn
    obtain ⟨-, r, hr, he, hk⟩ := bound_step hb ho hn
    constructor
    · intro r' hr'
      obtain rfl := Option.some.inj (hr.symm.trans hr')
      exact ⟨he, hk⟩
    · intro src data now sweepNow f hop hf ht hid
      rw [call_op] at hop
      subst hop
      exact brokered_of_bound hb hf ht hid

/-- Datagrams from elsewhere leave the binding of a live peer alone, throughout a run, just when
none of them is a Keepalive for its id. -/
theorem kept_iff {start : ℤ} {r : PeerRecord} (hr₀ : Run signer { lastSweep := start } h₀ s)
    (he : s.registry[id]? = some r) (hr : Run signer s h s')
    (ho : ∀ c ∈ h, OffPath id r.endpoint r.staticPubkey c) :
    (∀ c ∈ h, Kept id r.endpoint r.staticPubkey c) ↔ ∀ c ∈ h, ¬ KeptAlive id c := by
  rw [← along_forall, ← along_forall]
  rw [← along_forall] at ho
  apply hr.along_iff_of (I := fun _ s => Bound id r.endpoint r.staticPubkey s) _ ho
  · intro a s op _ hb ho hn
    exact bound_step hb ho hn
  · intro a s op _ hb ho
    exact kept_iff_step hb ho
  · exact ⟨owned_run hr₀ Registry.owned_empty, r, he, rfl, rfl⟩

theorem offPath_datagram {r : PeerRecord} (hf : frameOf data = some f) (ht : f.type ≠ .register)
    (hsrc : src ≠ e) (hr : s.registry[id]? = some r)
    (hlive : now - r.lastSeenUnixS < kSquatGuardWindowS)
    (hstays : (step signer s (.datagram src data now sweepNow)).2.registry[id]? ≠ none) :
    OffPath id e k (call (step signer) s (.datagram src data now sweepNow)) where
  source := by
    intro src' data' now' sweepNow' hop
    cases hop
    exact hsrc
  key := by
    intro src' data' now' sweepNow' f' hop hf' ht'
    cases hop
    obtain rfl := Option.some.inj (hf.symm.trans hf')
    exact absurd ht' ht
  live := by
    intro src' data' now' sweepNow' hop r' hr'
    cases hop
    obtain rfl := Option.some.inj (hr.symm.trans hr')
    exact hlive
  stays := hstays

theorem kept_under_broker :
    (∀ c ∈ calls (step insecureTestSigner) registered [.datagram { port := 2 }
      (encodeFrame { type := .brokerCandidates, id := [9], body := [1] }) 40 40],
        OffPath [9] { port := 1 } (List.replicate 32 5) c) ∧
    ∀ c ∈ calls (step insecureTestSigner) registered [.datagram { port := 2 }
      (encodeFrame { type := .brokerCandidates, id := [9], body := [1] }) 40 40],
        Kept [9] { port := 1 } (List.replicate 32 5) c := by
  have hf : frameOf (encodeFrame { type := .brokerCandidates, id := [9], body := [1] }) =
      some { type := .brokerCandidates, id := [9], body := [1] } := by decide
  have hoff : ∀ c ∈ calls (step insecureTestSigner) registered [.datagram { port := 2 }
      (encodeFrame { type := .brokerCandidates, id := [9], body := [1] }) 40 40],
        OffPath [9] { port := 1 } (List.replicate 32 5) c := by
    intro c hc
    rw [List.mem_singleton.mp hc]
    exact offPath_datagram hf (by decide) (by decide) getElem?_registered (by decide)
      (by decide +kernel)
  refine ⟨hoff, ?_⟩
  apply (kept_iff (r := peerRecord) (run_calls _ _) getElem?_registered (run_calls _ _) hoff).mpr
  rintro c hc ⟨src, data, now, sweepNow, f, hop, hf', ht, -⟩
  rw [List.mem_singleton.mp hc] at hop
  cases hop
  obtain rfl := Option.some.inj (hf.symm.trans hf')
  cases ht

/-- A Keepalive from anywhere takes the binding of a live peer away. -/
theorem not_kept_under_keepalive :
    (∀ c ∈ calls (step insecureTestSigner) registered
      [.datagram { port := 2 } (encodeFrame { type := .keepalive, id := [9] }) 40 40],
        OffPath [9] { port := 1 } (List.replicate 32 5) c) ∧
    ¬ ∀ c ∈ calls (step insecureTestSigner) registered
      [.datagram { port := 2 } (encodeFrame { type := .keepalive, id := [9] }) 40 40],
        Kept [9] { port := 1 } (List.replicate 32 5) c := by
  have hf : frameOf (encodeFrame { type := .keepalive, id := [9] }) =
      some { type := .keepalive, id := [9] } := by decide
  constructor
  · intro c hc
    rw [List.mem_singleton.mp hc]
    exact offPath_datagram hf (by decide) (by decide) getElem?_registered (by decide)
      (by decide +kernel)
  · intro hkept
    have hentry : ((step insecureTestSigner registered (.datagram { port := 2 }
        (encodeFrame { type := .keepalive, id := [9] }) 40 40)).2.registry[([9] : RedeskId)]?) =
          some { peerRecord with endpoint := { port := 2 }, lastSeenUnixS := 40 } := by
      decide +kernel
    exact absurd ((hkept _ (List.mem_cons_self ..)).binding _ hentry).1 (by decide)

end Redesk.Rendezvous.Loop
