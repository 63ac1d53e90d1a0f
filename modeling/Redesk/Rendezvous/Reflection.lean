import Redesk.Rendezvous.Writes

/-! The server is no reflector: what it sends goes back to where the datagram came from, or to an
endpoint that was itself the source of a datagram which the registry took. -/
namespace Redesk.Rendezvous.Loop
open Server Machine

variable {signer : Signer} {s : Loop} {h : List Call} {e : Event} {src dst : Endpoint}
  {data out : Bytes} {now sweepNow : ℤ} {f g : Frame} {id : RedeskId} {r : PeerRecord}

/-- The call takes a REGISTER or a Keepalive for `id` that came from `ep`. -/
def Observes (id : RedeskId) (ep : Endpoint) (c : Call) : Prop :=
  ∃ data now sweepNow f, c.op = .datagram ep data now sweepNow ∧ frameOf data = some f ∧
    f.id = id ∧
      (f.type = .register ∧ (c.pre.registry.upsert (registration ep f now)).1.ok = true ∨
        f.type = .keepalive ∧ ∃ r, c.pre.registry[id]? = some r ∧ (c.pre.registry.upsert
          { r with endpoint := ep, lastSeenUnixS := now }).1.ok = true)

/-- A datagram that the server has nothing to do with. -/
def Ignorable (data : Bytes) : Prop :=
  (decodeFrame data).status.ok = false ∨ (decodeFrame data).value.type = .unknown ∨
    (decodeFrame data).value.type = .registerOk ∨ (decodeFrame data).value.type = .lookupOk ∨
      (decodeFrame data).value.type = .lookupFail

/-- What a run of the server promises to those it sends to. -/
structure NotReflector (h : List Call) : Prop where
  /-- Only a datagram with a frame in it is answered. -/
  prompted : ∀ c ∈ h, ∀ dst out, c.res = some (dst, out) →
    ∃ src data now sweepNow f, c.op = .datagram src data now sweepNow ∧ frameOf data = some f
  answered : ∀ c ∈ h, ∀ src data now sweepNow f dst out, c.op = .datagram src data now sweepNow →
    frameOf data = some f → c.res = some (dst, out) →
      ¬ (f.type = .brokerCandidates ∧ ∃ r, c.pre.registry[f.id]? = some r) → dst = src
  relayed : Along (fun a c => ∀ src data now sweepNow f r dst out,
    c.op = .datagram src data now sweepNow → frameOf data = some f → f.type = .brokerCandidates →
      c.pre.registry[f.id]? = some r → c.res = some (dst, out) →
        dst = r.endpoint ∧ decodeFrame out = .good f ∧ ∃ d ∈ a, Observes f.id dst d) h
  ignored : ∀ c ∈ h, ∀ src data now sweepNow, c.op = .datagram src data now sweepNow →
    Ignorable data → c.res = none ∧ c.post = c.pre.sweep sweepNow
  readOnly : ∀ c ∈ h, ∀ src data now sweepNow f, c.op = .datagram src data now sweepNow →
    frameOf data = some f → f.type = .lookup ∨ f.type = .brokerCandidates →
      c.post.registry = (c.pre.sweep sweepNow).registry

/-- Every endpoint in the registry was the source of a datagram that the registry took. -/
def Observed (h : List Call) (s : Loop) : Prop :=
  s.registry.Owned ∧ ∀ (id : RedeskId) (r : PeerRecord), s.registry[id]? = some r →
    ∃ d ∈ h, Observes id r.endpoint d

variable (signer e) in
theorem observed_step (ho : Observed h s) :
    Observed (h ++ [call (step signer) s e]) (step signer s e).2 := by
  refine ⟨owned_step ho.1, fun id r hr => ?_⟩
  have hr := handled_of_post hr
  rcases getElem?_handled signer s e id with ⟨r', hw, rfl, hr'⟩ | ⟨-, hsame⟩
  · -- the round writes the binding: its endpoint is where the datagram came from
    obtain rfl := Option.some.inj (hr.symm.trans hr')
    obtain ⟨src, data, now, sweepNow, f, rfl, hf, ha, hcase⟩ := written_cases hw
    refine ⟨_, List.mem_append_right h (List.mem_singleton_self _), ?_⟩
    have hok := Registry.upsert_ok_iff.mpr ha
    rcases hcase with ⟨ht, rfl⟩ | ⟨ht, r₀, hr₀, rfl⟩
    · exact ⟨data, now, sweepNow, f, rfl, hf, rfl, .inl ⟨ht, hok⟩⟩
    · have hid : r₀.id = f.id := (ho.1 f.id r₀ hr₀).1
      refine ⟨data, now, sweepNow, f, rfl, hf, hid.symm, .inr ⟨ht, r₀, ?_, hok⟩⟩
      show s.registry[r₀.id]? = some r₀
      rw [hid]
      exact hr₀
  · obtain ⟨d, hd, hobs⟩ := ho.2 id r (hsame.symm.trans hr)
    exact ⟨d, List.mem_append_left _ hd, hobs⟩

theorem observed_run {start : ℤ} (hr : Run signer { lastSweep := start } h s) : Observed h s := by
  induction hr with
  | nil =>
    refine ⟨Registry.owned_empty, fun id r hr => ?_⟩
    simp at hr
  | snoc hr e ih => exact observed_step signer e ih

/-- Only what goes to a registered id leaves for another endpoint. -/
theorem source_of_answer (ha : Answer signer s.registry src f now dst g)
    (hn : ¬ (f.type = .brokerCandidates ∧ ∃ r, s.registry[f.id]? = some r)) : dst = src := by
  cases ha with
  | relayed type bound => exact absurd ⟨type, _, bound⟩ hn
  | _ => rfl

/-- A frame for a registered id is relayed as it came. -/
theorem relayed_of_answer (ha : Answer signer s.registry src f now dst g)
    (ht : f.type = .brokerCandidates) (hr : s.registry[f.id]? = some r) :
    dst = r.endpoint ∧ g = f := by
  cases ha with
  | registered type => exact absurd (ht.symm.trans type) (by simp)
  | found type => exact absurd (ht.symm.trans type) (by simp)
  | missing type free =>
    have htarget : target f = f.id := by simp [target, ht]
    rw [htarget, hr] at free
    cases free
  | relayed type bound =>
    obtain rfl := Option.some.inj (hr.symm.trans bound)
    refine ⟨rfl, ?_⟩
    rw [← ht]

theorem handle_of_ignorable (h : Ignorable data) : handle signer s src data now = (none, s) := by
  rw [handle]
  cases hf : frameOf data with
  | none => rfl
  | some f =>
    obtain ⟨hok, hknown, rfl⟩ : (decodeFrame data).status.ok = true ∧
        (decodeFrame data).value.type ≠ .unknown ∧ (decodeFrame data).value = f := by
      simpa [frameOf, and_assoc] using hf
    rcases h with h | h | h | h | h
    · rw [hok] at h
      cases h
    · exact absurd h hknown
    all_goals simp only [h]

theorem registry_of_readOnly (hf : frameOf data = some f)
    (ht : f.type = .lookup ∨ f.type = .brokerCandidates) :
    (handle signer s src data now).2.registry = s.registry := by
  rw [registry_handle, hf, Option.bind_some]
  rcases ht with ht | ht <;> simp only [offered, ht, offer]

theorem lastSweep_handle : (handle signer s src data now).2.lastSweep = s.lastSweep := by
  rw [handle]
  cases frameOf data with
  | none => rfl
  | some f => cases hf : f.type <;> simp only [hf]

/-- What a sweep leaves of the registry depends on nothing but the registry and the last sweep. -/
theorem registry_sweep_congr {s' : Loop} (hr : s.registry = s'.registry)
    (hl : s.lastSweep = s'.lastSweep) : (s.sweep now).registry = (s'.sweep now).registry := by
  unfold sweep
  rw [hl]
  split
  · rw [hr]
  · exact hr

/-- In every run the server sends only to those who have written to it. -/
theorem notReflector_run {start : ℤ} (hr : Run signer { lastSweep := start } h s) :
    NotReflector h where
  prompted c hc dst out hres := by
    rw [hr.call_of_mem hc] at hres
    obtain ⟨src, data, now, sweepNow, f, g, hop, hf, -, -⟩ := step_eq_some hres
    exact ⟨src, data, now, sweepNow, f, hop, hf⟩
  answered c hc src data now sweepNow f dst out hop hf hres hn := by
    rw [hr.call_of_mem hc, hop] at hres
    obtain ⟨g, -, ha⟩ := answer_of_frame hf hres
    exact source_of_answer ha hn
  relayed := by
    intro a c b hs src data now sweepNow f r dst out hop hf ht hbound hres
    subst hs
    obtain ⟨ha, hc, -⟩ := hr.split
    rw [hc, hop] at hres
    obtain ⟨g, rfl, hans⟩ := answer_of_frame hf hres
    obtain ⟨rfl, rfl⟩ := relayed_of_answer hans ht hbound
    refine ⟨rfl, ?_, (observed_run ha).2 _ r hbound⟩
    simpa using decodeFrame_of_fits (s := []) (frameOf_fits hf).1
  ignored c hc src data now sweepNow hop hi := by
    rw [hr.call_of_mem hc, hop]
    simp only [call_res, call_post, step_datagram, handle_of_ignorable hi, call_pre]
    exact ⟨trivial, trivial⟩
  readOnly c hc src data now sweepNow f hop hf ht := by
    rw [hr.call_of_mem hc, hop]
    exact registry_sweep_congr (registry_of_readOnly hf ht) lastSweep_handle

theorem notReflector_of_broker : NotReflector (calls (step insecureTestSigner) { lastSweep := 0 }
    [.datagram { port := 1 }
      (encodeFrame { type := .register, id := [9], body := List.replicate 32 5 }) 0 0,
    .datagram { port := 2 }
      (encodeFrame { type := .brokerCandidates, id := [9], body := [1] }) 1 1]) :=
  notReflector_run (run_calls _ _)

end Redesk.Rendezvous.Loop
