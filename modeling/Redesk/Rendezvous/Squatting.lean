import Redesk.Rendezvous.Writes

/-! A live id cannot be taken over: its binding and its key stay, whatever other peers send. -/
namespace Redesk.Rendezvous.Loop
open Server Machine

variable {signer : Signer} {s : Loop} {h : List Call} {e : Event} {id : RedeskId}
  {k : StaticPubKey} {r : PeerRecord} {c : Call}

/-- A frame that names `id` finds its binding within its time to live. -/
def LiveAtFrame (id : RedeskId) (c : Call) : Prop :=
  ∀ src data now sweepNow f, c.op = .datagram src data now sweepNow → frameOf data = some f →
    target f = id → ∀ r, c.pre.registry[id]? = some r →
      now - r.lastSeenUnixS ≤ kRegistryTtlSeconds

/-- The sweep of the round, if it is due, finds the binding of `id` within its time to live. -/
def LiveAtSweep (signer : Signer) (id : RedeskId) (c : Call) : Prop :=
  Due (handled signer c.pre c.op) c.op.sweepNow →
    ∀ r, (handled signer c.pre c.op).registry[id]? = some r →
      c.op.sweepNow - r.lastSeenUnixS ≤ kRegistryTtlSeconds

/-- The binding of `id` is there, with the key `k`. -/
def Held (id : RedeskId) (k : StaticPubKey) (s : Loop) : Prop :=
  s.registry.Owned ∧ ∃ r, s.registry[id]? = some r ∧ r.staticPubkey = k

/-- What the registry promises the peers in it, in the state `s` that the calls `h` lead to. -/
structure Unsquattable (signer : Signer) (h : List Call) (s : Loop) : Prop where
  keeps : ∀ a c b id k, h = a ++ c :: b → Registers id k c → LiveAtSweep signer id c →
    (∀ d ∈ b, LiveAtFrame id d ∧ LiveAtSweep signer id d) →
      ∃ r, s.registry[id]? = some r ∧ r.staticPubkey = k
  owned : s.registry.Owned
  refused : ∀ rec, (s.registry.upsert rec).1.ok = false → (s.registry.upsert rec).2 = s.registry
  taken : ∀ rec, (s.registry.upsert rec).1.ok = true →
    (s.registry.upsert rec).2[rec.id]? = some rec ∧
      ∀ id : RedeskId, id ≠ rec.id → (s.registry.upsert rec).2[id]? = s.registry[id]?

/-- A record that is taken for a live binding has the key of that binding. -/
theorem key_of_accepts {map : Registry} {rec : PeerRecord} (ha : map.Accepts rec)
    (hr : map[rec.id]? = some r)
    (hlive : rec.lastSeenUnixS - r.lastSeenUnixS ≤ kRegistryTtlSeconds) :
    rec.staticPubkey = r.staticPubkey := by
  by_contra hkey
  have hwindow : rec.lastSeenUnixS - r.lastSeenUnixS < kSquatGuardWindowS :=
    lt_of_le_of_lt hlive (by decide)
  have hguarded := Registry.guarded_eq_true.mpr ⟨r, hr, hwindow, Ne.symm hkey⟩
  rw [ha.2.2] at hguarded
  cases hguarded

theorem held_handled (hh : Held id k s) (hf : LiveAtFrame id (call (step signer) s e)) :
    ∃ r, (handled signer s e).registry[id]? = some r ∧ r.staticPubkey = k := by
  obtain ⟨ho, r, hr, rfl⟩ := hh
  rcases getElem?_handled signer s e id with ⟨r', hw, rfl, hr'⟩ | ⟨-, hsame⟩
  · refine ⟨r', hr', ?_⟩
    obtain ⟨src, data, now, sweepNow, f, rfl, hframe, ha, hcase⟩ := written_cases hw
    rcases hcase with ⟨ht, rfl⟩ | ⟨-, r₀, hr₀, rfl⟩
    · -- a REGISTER from anybody: the squat guard lets the same key pass only
      have htarget : target f = f.id := by simp [target, ht]
      exact key_of_accepts ha hr (hf src data now sweepNow f rfl hframe htarget r hr)
    · have hr₀' : s.registry[r₀.id]? = some r₀ := by
        rw [(ho f.id r₀ hr₀).1]
        exact hr₀
      obtain rfl := Option.some.inj (hr₀'.symm.trans hr)
      rfl
  · exact ⟨r, hsame.trans hr, rfl⟩

/-- The sweep of a round leaves a binding that is within its time to live. -/
theorem held_swept (ho : s.registry.Owned)
    (hr : ∃ r, (handled signer s e).registry[id]? = some r ∧ r.staticPubkey = k)
    (hs : LiveAtSweep signer id (call (step signer) s e)) : Held id k (step signer s e).2 := by
  obtain ⟨r, hr, hk⟩ := hr
  refine ⟨owned_step ho, r, ?_, hk⟩
  rw [step_post]
  exact getElem?_sweep_of_live hr fun hdue => hs hdue r hr

theorem held_of_registers (ho : s.registry.Owned)
    (hc : Registers id k (call (step signer) s e))
    (hs : LiveAtSweep signer id (call (step signer) s e)) : Held id k (step signer s e).2 := by
  refine held_swept ho ?_ hs
  obtain ⟨r, hw, hid, hk⟩ := hc.written
  rcases getElem?_handled signer s e id with ⟨r', hw', -, hr'⟩ | ⟨hw', -⟩
  · obtain rfl := Option.some.inj (hw.symm.trans hw')
    exact ⟨r, hr', hk⟩
  · exact absurd hid (hw' r hw)

/-- In every run of the server a binding stays with its key as long as it is kept alive. -/
theorem unsquattable_run {start : ℤ} (hr : Run signer { lastSweep := start } h s) :
    Unsquattable signer h s where
  keeps := by
    intro a c b id k hs hc hsweep hlive
    subst hs
    obtain ⟨ha, hcall, hb⟩ := hr.split
    have hcpost : c.post = (step signer c.pre c.op).2 := congrArg Machine.Call.post hcall
    have hheld : Held id k c.post := by
      rw [hcpost]
      rw [hcall] at hc hsweep
      exact held_of_registers (owned_run ha Registry.owned_empty) hc hsweep
    refine (hb.keeps hheld fun d hd hpre => ?_).1.2
    have hcall' := hb.call_of_mem hd
    obtain ⟨hf, hsw⟩ := hlive d hd
    rw [hcall'] at hf hsw ⊢
    exact held_swept hpre.1 (held_handled hpre hf) hsw
  owned := owned_run hr Registry.owned_empty
  refused rec hok := by
    refine (Registry.upsert_of_not_accepts fun ha => ?_).2
    rw [Registry.upsert_of_accepts ha] at hok
    cases hok
  taken rec hok := by
    refine ⟨?_, fun id hid => Registry.getElem?_upsert_of_ne hid.symm⟩
    rw [Registry.upsert_of_accepts (Registry.upsert_ok_iff.mp hok)]
    exact Std.ExtTreeMap.getElem?_insert_self

/-- A live id keeps its key when another peer registers it with a key of its own. -/
theorem held_against_squatter : ∃ r,
    (final (step insecureTestSigner) { lastSweep := 0 }
      [.datagram { port := 1 }
        (encodeFrame { type := .register, id := [9], body := List.replicate 32 5 }) 0 0,
      .datagram { port := 2 }
        (encodeFrame { type := .register, id := [9], body := List.replicate 32 6 }) 59
          59]).registry[([9] : RedeskId)]? = some r ∧ r.staticPubkey = List.replicate 32 5 := by
  have hf (k : UInt8) : frameOf (encodeFrame
      { type := .register, id := [9], body := List.replicate 32 k }) =
        some { type := .register, id := [9], body := List.replicate 32 k } := by
    rw [frameOf, ← List.append_nil (encodeFrame _), decodeFrame_of_fits ⟨by simp, by simp, by simp⟩]
    rfl
  refine (unsquattable_run (run_calls _ _)).keeps [] _ _ [9] (List.replicate 32 5) rfl
    ⟨_, _, _, _, _, rfl, hf 5, rfl, rfl, by decide, by decide +kernel⟩ ?_ ?_
  · intro hdue
    exact absurd hdue (by decide +kernel)
  · intro d hd
    rw [List.mem_singleton.mp hd]
    constructor
    · intro src data now sweepNow f hop _ _ r hr
      cases hop
      obtain rfl := Option.some.inj (getElem?_registered.symm.trans hr)
      decide
    · intro _ r hr
      have hsame : (handled insecureTestSigner registered (.datagram { port := 2 }
          (encodeFrame { type := .register, id := [9], body := List.replicate 32 6 }) 59
            59)).registry[([9] : RedeskId)]? = some peerRecord := by decide +kernel
      obtain rfl := Option.some.inj (hsame.symm.trans hr)
      decide

end Redesk.Rendezvous.Loop
