import Redesk.Machine.Lease
import Redesk.Rendezvous.Writes
import Redesk.Server.Net

/-! What the sweeps of the rendezvous server leave: nothing old, and no more than came in lately. -/
namespace Redesk.Rendezvous.Loop
open Server Machine

variable {signer : Signer} {s : Loop} {h : List Call} {e : Event} {id : RedeskId}
  {r : PeerRecord} {token : String} {b : BrokerSession} {c : Call} {start : ℤ}

/-- The binding that the call writes, under its id. -/
def binds (c : Call) : Option (RedeskId × PeerRecord) :=
  (written c.pre c.op).map fun r => (r.id, r)

/-- The token under which a datagram from `src` for `target` is brokered. -/
def brokerToken (src target : Endpoint) : String := src.display ++ "|" ++ target.display

/-- The endpoints that a datagram is brokered between, and the session that it asks for. -/
def brokers (s : Loop) : Event → Option ((Endpoint × Endpoint) × BrokerSession)
  | .datagram src data now _ => (frameOf data).bind fun f =>
    if f.type = .brokerCandidates then
      (s.registry.lookup f.id).map fun target => ((src, target.endpoint),
        { callee := f.id, callerEp := src, calleeEp := target.endpoint, createdUnixS := now })
    else none
  | .nothing _ => none

/-- The session that is kept under a token: the one that is there, if it was ever stamped. -/
def keptSession (old : Option BrokerSession) (sess : BrokerSession) : BrokerSession :=
  (old.filter fun b => decide (b.createdUnixS ≠ 0)).getD sess

variable (signer s e) in
theorem sessions_handled : (handled signer s e).sessions =
    match brokers s e with
    | some ((src, dst), sess) => s.sessions.insert (brokerToken src dst)
        (keptSession s.sessions[brokerToken src dst]? sess)
    | none => s.sessions := by
  cases e with
  | nothing sweepNow => rfl
  | datagram src data now sweepNow =>
    simp only [handled, handle, brokers]
    cases frameOf data with
    | none => rfl
    | some f =>
      cases ht : f.type with
      | brokerCandidates =>
        cases hl : s.registry.lookup f.id with
        | none => simp [ht, hl, handleBroker]
        | some target =>
          simp only [ht, hl, handleBroker, Option.bind_some, if_true, Option.map_some, brokerToken,
            Std.ExtTreeMap.getD_eq_getD_getElem?]
          cases hold : s.sessions[src.display ++ "|" ++ target.endpoint.display]? with
          | none => simp [keptSession]
          | some b =>
            by_cases hb : b.createdUnixS = 0 <;> simp [keptSession, hb, Option.filter_some]
      | _ => simp [ht]

/-- The broker session that the call opens, unless there is one under its token. -/
def opens (c : Call) : Option (String × BrokerSession) :=
  (brokers c.pre c.op).map fun p => (brokerToken p.1.1 p.1.2, p.2)

theorem keptSession_cases {old : Option BrokerSession} {sess : BrokerSession} :
    old = some (keptSession old sess) ∨ keptSession old sess = sess := by
  cases old with
  | none => exact .inr rfl
  | some b =>
    by_cases hb : b.createdUnixS = 0
    · exact .inr (by simp [keptSession, Option.filter_some, hb])
    · exact .inl (by simp [keptSession, Option.filter_some, hb])

variable (signer s e) in
/-- A broker session was there, or the datagram of the round opens it. -/
theorem open_of_handled (token b) (hb : (handled signer s e).sessions[token]? = some b) :
    s.sessions[token]? = some b ∨ opens (call (step signer) s e) = some (token, b) := by
  rw [sessions_handled] at hb
  cases hp : brokers s e with
  | none => exact .inl (by simpa [hp] using hb)
  | some p =>
    obtain ⟨⟨src, dst⟩, sess⟩ := p
    simp only [hp, Std.ExtTreeMap.getElem?_insert] at hb
    split at hb
    · rename_i htoken
      obtain rfl := Std.LawfulEqOrd.eq_of_compare htoken
      obtain rfl := Option.some.inj hb
      refine keptSession_cases.imp_right fun hsess => ?_
      rw [hsess]
      simp [opens, hp]
    · exact .inl hb

/-- What a round writes is stamped with the time of its datagram. -/
theorem received_of_binds (hc : binds (call (step signer) s e) = some (id, r)) :
    e.received = some r.lastSeenUnixS := by
  obtain ⟨r', hw, heq⟩ := Option.map_eq_some_iff.mp hc
  obtain ⟨-, rfl⟩ := Prod.mk.inj heq
  obtain ⟨src, data, now, sweepNow, f, rfl, -, -, ⟨-, rfl⟩ | ⟨-, r₀, -, rfl⟩⟩ := written_cases hw
  · rfl
  · rfl

theorem brokers_eq_some {p : Endpoint × Endpoint} (hp : brokers s e = some (p, b)) :
    ∃ data now sweepNow f target, e = .datagram p.1 data now sweepNow ∧ frameOf data = some f ∧
      f.type = .brokerCandidates ∧ s.registry[f.id]? = some target ∧ target.endpoint = p.2 ∧
        b = { callee := f.id, callerEp := p.1, calleeEp := p.2, createdUnixS := now } := by
  cases e with
  | nothing sweepNow => cases hp
  | datagram src data now sweepNow =>
    obtain ⟨f, hf, hp⟩ := Option.bind_eq_some_iff.mp hp
    obtain ⟨ht, hp⟩ := Option.ite_none_right_eq_some.mp hp
    obtain ⟨target, hl, heq⟩ := Option.map_eq_some_iff.mp hp
    obtain ⟨rfl, rfl⟩ := Prod.mk.inj heq
    exact ⟨data, now, sweepNow, f, target, rfl, hf, ht, hl, rfl, rfl⟩

theorem received_of_opens (hc : opens (call (step signer) s e) = some (token, b)) :
    e.received = some b.createdUnixS := by
  obtain ⟨⟨p, b'⟩, hp, heq⟩ := Option.map_eq_some_iff.mp hc
  obtain ⟨-, rfl⟩ := Prod.mk.inj heq
  obtain ⟨data, now, sweepNow, f, target, he, -, -, -, -, rfl⟩ := brokers_eq_some hp
  rw [call_op] at he
  rw [he]
  rfl

/-- One datagram does not both write a binding and open a broker session. -/
theorem opens_of_binds (hc : binds (call (step signer) s e) = some (id, r)) :
    opens (call (step signer) s e) = none := by
  obtain ⟨r', hw, -⟩ := Option.map_eq_some_iff.mp hc
  obtain ⟨src, data, now, sweepNow, f, rfl, hf, -, ⟨ht, -⟩ | ⟨ht, -⟩⟩ := written_cases hw
  · simp [opens, brokers, hf, ht]
  · simp [opens, brokers, hf, ht]

variable (signer s e) in
theorem bind_of_handled (id r) (hr : (handled signer s e).registry[id]? = some r) :
    s.registry[id]? = some r ∨ binds (call (step signer) s e) = some (id, r) := by
  rcases getElem?_handled signer s e id with ⟨r', hw, rfl, hr'⟩ | ⟨-, hsame⟩
  · obtain rfl := Option.some.inj (hr.symm.trans hr')
    exact .inr (by simp [binds, hw])
  · exact .inl (hsame.symm.trans hr)

/-- All that the server keeps was written by a datagram. -/
theorem backed_run (hr : Run signer { lastSweep := start } h s) :
    Lease.Backed binds h s.registry ∧ Lease.Backed opens h s.sessions := by
  induction hr with
  | nil => exact ⟨Lease.backed_empty, Lease.backed_empty⟩
  | @snoc h s hr e ih =>
    have hbound := ih.1.round (bind_of_handled signer s e)
    have hopened := ih.2.round (open_of_handled signer s e)
    rw [step_post, sweep]
    split
    · exact ⟨hbound.sweep, hopened.sweep⟩
    · exact ⟨hbound, hopened⟩

/-- The maps of the server have been swept lately. -/
structure Swept (start : ℤ) (h : List Call) (s : Loop) : Prop where
  bindings : Lease.Tended (·.lastSeenUnixS) kRegistryTtlSeconds kExpirySweepSeconds s.registry
    s.lastSweep (clock start h)
  sessions : Lease.Tended (·.createdUnixS) kRegistryTtlSeconds kExpirySweepSeconds s.sessions
    s.lastSweep (clock start h)

theorem swept_step (hi : Swept start h s) (he : e.From (clock start h)) :
    Swept start (h ++ [call (step signer) s e]) (step signer s e).2 := by
  have hbindings := hi.bindings.round (by decide) (by decide) (fun id r hr =>
    (bind_of_handled signer s e id r hr).imp_right fun hc =>
      he.received (received_of_binds hc)) he.le
  have hsessions := hi.sessions.round (by decide) (by decide) (fun token b hb =>
    (open_of_handled signer s e token b hb).imp_right fun hc =>
      he.received (received_of_opens hc)) he.le
  rw [step_post, sweep, lastSweep_handled]
  by_cases hdue : e.sweepNow - s.lastSweep ≥ kExpirySweepSeconds
  · rw [if_pos hdue] at hbindings hsessions ⊢
    constructor
    · rw [clock_snoc]
      exact hbindings
    · rw [clock_snoc]
      exact hsessions
  · rw [if_neg hdue] at hbindings hsessions ⊢
    constructor
    · rw [clock_snoc, lastSweep_handled]
      exact hbindings
    · rw [clock_snoc, lastSweep_handled]
      exact hsessions

theorem swept_run (hr : Run signer { lastSweep := start } h s) (ht : Chronological start h) :
    Swept start h s := by
  have hperiod : start - start < kExpirySweepSeconds := by simp [kExpirySweepSeconds]
  refine hr.invariant_of_along ⟨?_, ?_⟩ (fun _ _ _ _ hi he => swept_step hi he) ht
  · exact ⟨Lease.within_empty, le_rfl, hperiod⟩
  · exact ⟨Lease.within_empty, le_rfl, hperiod⟩

/-- What the server keeps after the calls `h`: no more than what came in lately. -/
structure Housekept (start : ℤ) (h : List Call) (s : Loop) : Prop where
  bindings : ∀ (id : RedeskId) r, s.registry[id]? = some r → (∃ c ∈ h, binds c = some (id, r)) ∧
    clock start h - r.lastSeenUnixS < kRegistryTtlSeconds + kExpirySweepSeconds
  sessions : ∀ (token : String) b, s.sessions[token]? = some b →
    (∃ c ∈ h, opens c = some (token, b)) ∧
      clock start h - b.createdUnixS < kRegistryTtlSeconds + kExpirySweepSeconds
  size : s.registry.size + s.sessions.size ≤
    datagramsWithin (kRegistryTtlSeconds + kExpirySweepSeconds) start h

theorem rendezvous_housekept (hr : Run signer { lastSweep := start } h s)
    (ht : Chronological start h) : Housekept start h s := by
  have hswept := swept_run hr ht
  obtain ⟨hbound, hopened⟩ := backed_run hr
  refine ⟨fun id r hr => ⟨hbound id r hr, hswept.bindings.lt hr⟩,
    fun token b hb => ⟨hopened token b hb, hswept.sessions.lt hb⟩, ?_⟩
  refine (Nat.add_le_add (hswept.bindings.size_le hbound)
    (hswept.sessions.size_le hopened)).trans (Lease.countP_add_le ?_ ?_ ?_)
  · intro c hc hw
    rw [hr.call_of_mem hc] at hw ⊢
    obtain ⟨⟨id, r⟩, hbinds, hlate⟩ := (Option.any_eq_true _ _).mp hw
    rw [call_op, received_of_binds hbinds]
    exact hlate
  · intro c hc hw
    rw [hr.call_of_mem hc] at hw ⊢
    obtain ⟨⟨token, b⟩, hopens, hlate⟩ := (Option.any_eq_true _ _).mp hw
    rw [call_op, received_of_opens hopens]
    exact hlate
  · intro c hc hw
    rw [hr.call_of_mem hc] at hw ⊢
    obtain ⟨⟨id, r⟩, hbinds, -⟩ := (Option.any_eq_true _ _).mp hw
    rw [opens_of_binds hbinds]
    exact Bool.false_ne_true

theorem rendezvous_housekept_registered : Housekept 0
    (calls (step insecureTestSigner) { lastSweep := 0 } [.datagram { port := 1 }
        (encodeFrame { type := .register, id := [9], body := List.replicate 32 5 }) 10 10,
      .datagram { port := 2 } (encodeFrame { type := .brokerCandidates, id := [9] }) 12 13,
      .nothing 40])
    (final (step insecureTestSigner) { lastSweep := 0 }
      [.datagram { port := 1 }
        (encodeFrame { type := .register, id := [9], body := List.replicate 32 5 }) 10 10,
      .datagram { port := 2 } (encodeFrame { type := .brokerCandidates, id := [9] }) 12 13,
      .nothing 40]) := by
  refine rendezvous_housekept (run_calls _ _) ?_
  simp only [Chronological, calls, along_cons]
  exact ⟨by decide, by decide, by decide, along_nil⟩

end Redesk.Rendezvous.Loop
