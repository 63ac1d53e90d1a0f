import Redesk.Rendezvous.Housekeeping
import Redesk.Server.Net

/-! The broker sessions as what they are for: one for each pair of endpoints. The server keeps them
under strings, which tell numeric endpoints apart. -/
namespace Redesk.Rendezvous.Loop
open Server Machine PrefixCode

variable {signer : Signer} {s : Loop} {h : List Call} {e : Event} {src dst src' dst' : Endpoint}
  {id : RedeskId} {r : PeerRecord} {b : BrokerSession} {start now : ℤ}

theorem brokerToken_inj (hs : src.Numeric) (hd : dst.Numeric) (hs' : src'.Numeric)
    (hd' : dst'.Numeric) (h : brokerToken src dst = brokerToken src' dst') :
    src = src' ∧ dst = dst' := by
  have hlist := congrArg String.toList h
  simp only [brokerToken, String.toList_append, List.append_assoc] at hlist
  obtain ⟨hsrc, hdst⟩ := append_cons_inj hs.notMem_display hs'.notMem_display hlist
  exact ⟨hs.display_inj hs' (String.toList_inj.mp hsrc),
    hd.display_inj hd' (String.toList_inj.mp hdst)⟩

/-- The sessions between endpoints. -/
abbrev Brokerage := Endpoint × Endpoint → Option BrokerSession

/-- A round opens a session between its endpoints if they have none, and drops the old ones when
that is due. -/
def Brokerage.round (m : Brokerage) (c : Call) : Brokerage := fun p =>
  let opened := match brokers c.pre c.op with
    | some (q, sess) => if p = q then some (keptSession (m p) sess) else m p
    | none => m p
  opened.filter fun b => !decide (Drops c.pre b.createdUnixS c.op.sweepNow)

/-- The sessions after a run. -/
def brokerage (h : List Call) : Brokerage := h.foldl Brokerage.round fun _ => none

@[simp] theorem brokerage_snoc (h : List Call) (c : Call) :
    brokerage (h ++ [c]) = (brokerage h).round c := by
  simp [brokerage]

/-- Every datagram comes from a numeric endpoint. -/
def Sourced (h : List Call) : Prop :=
  ∀ c ∈ h, ∀ src data now sweepNow, c.op = .datagram src data now sweepNow → src.Numeric

/-- The endpoints in the registry are sources of datagrams. -/
theorem numeric_of_bound (hr : Run signer { lastSweep := start } h s) (hn : Sourced h)
    (hb : s.registry[id]? = some r) : r.endpoint.Numeric := by
  obtain ⟨c, hc, hbinds⟩ := (backed_run hr).1 id r hb
  obtain ⟨r', hw, heq⟩ := Option.map_eq_some_iff.mp hbinds
  obtain ⟨-, rfl⟩ := Prod.mk.inj heq
  obtain ⟨src, data, now, sweepNow, f, hop, -, -, ⟨-, rfl⟩ | ⟨-, r₀, -, rfl⟩⟩ := written_cases hw
  · exact hn c hc src data now sweepNow hop
  · exact hn c hc src data now sweepNow hop

/-- The sessions of the server are those between numeric endpoints, each with its own endpoints. -/
structure Brokered (h : List Call) (s : Loop) : Prop where
  sessions : ∀ src dst : Endpoint, src.Numeric → dst.Numeric →
    s.sessions[brokerToken src dst]? = brokerage h (src, dst)
  between : ∀ src dst b, brokerage h (src, dst) = some b → b.callerEp = src ∧ b.calleeEp = dst
  tokens : ∀ token b, s.sessions[token]? = some b →
    ∃ src dst : Endpoint, src.Numeric ∧ dst.Numeric ∧ token = brokerToken src dst

theorem Sourced.of_append {h' : List Call} (hn : Sourced (h ++ h')) : Sourced h :=
  fun c hc => hn c (List.mem_append_left _ hc)

/-- The endpoints that a datagram is brokered between are numeric. -/
theorem numeric_of_brokers {p : Endpoint × Endpoint} (hr : Run signer { lastSweep := start } h s)
    (hn : Sourced (h ++ [call (step signer) s e])) (hp : brokers s e = some (p, b)) :
    p.1.Numeric ∧ p.2.Numeric := by
  obtain ⟨data, now, sweepNow, f, target, he, -, -, hl, hdst, -⟩ := brokers_eq_some hp
  refine ⟨hn (call (step signer) s e) (by simp) p.1 data now sweepNow he, ?_⟩
  rw [← hdst]
  exact numeric_of_bound hr hn.of_append hl

/-- A round does to the session of a pair what it does to the one under its token. -/
theorem sessions_step (hr : Run signer { lastSweep := start } h s)
    (hn : Sourced (h ++ [call (step signer) s e])) (hs : src.Numeric) (hd : dst.Numeric)
    (hsame : s.sessions[brokerToken src dst]? = brokerage h (src, dst)) :
    (step signer s e).2.sessions[brokerToken src dst]? =
      brokerage (h ++ [call (step signer) s e]) (src, dst) := by
  rw [step_post, getElem?_sessions_sweep, sessions_handled, brokerage_snoc, Brokerage.round]
  simp only [drops_handled, call_pre, call_op]
  congr 1
  cases hp : brokers s e with
  | none => exact hsame
  | some p =>
    obtain ⟨⟨src', dst'⟩, sess⟩ := p
    obtain ⟨hs', hd'⟩ := numeric_of_brokers hr hn hp
    simp only [Std.ExtTreeMap.getElem?_insert, Std.LawfulEqOrd.compare_eq_iff_eq]
    by_cases hpair : (src, dst) = (src', dst')
    · obtain ⟨rfl, rfl⟩ := Prod.mk.inj hpair
      simp [hsame]
    · have htoken : brokerToken src' dst' ≠ brokerToken src dst := by
        intro h
        obtain ⟨rfl, rfl⟩ := brokerToken_inj hs' hd' hs hd h
        exact hpair rfl
      rw [if_neg htoken, if_neg hpair]
      exact hsame

/-- A session that stands after a round stood before it, or is the one that the round opens. -/
theorem round_cases {m : Brokerage} {c : Call} {p : Endpoint × Endpoint}
    (hb : m.round c p = some b) : m p = some b ∨ brokers c.pre c.op = some (p, b) := by
  have hopened := Option.eq_some_of_filter_eq_some hb
  cases hq : brokers c.pre c.op with
  | none => exact .inl (by simpa [hq] using hopened)
  | some q =>
    obtain ⟨q, sess⟩ := q
    simp only [hq] at hopened
    split at hopened
    · rename_i hpq
      obtain rfl := Option.some.inj hopened
      refine keptSession_cases.imp_right fun hsess => ?_
      rw [hsess, hpq]
    · exact .inl hopened

theorem brokered (hr : Run signer { lastSweep := start } h s) (hn : Sourced h) : Brokered h s := by
  induction hr with
  | nil =>
    refine ⟨fun src dst _ _ => by simp [brokerage], fun src dst b hb => ?_, fun token b hb => ?_⟩
    · cases hb
    · simp at hb
  | @snoc h s hr e ih =>
    obtain ⟨hsessions, hbetween, htokens⟩ := ih hn.of_append
    constructor
    · intro src dst hs hd
      exact sessions_step hr hn hs hd (hsessions src dst hs hd)
    · intro src dst b hb
      rw [brokerage_snoc] at hb
      rcases round_cases hb with hold | hnew
      · exact hbetween src dst b hold
      · obtain ⟨data, now, sweepNow, f, target, -, -, -, -, -, rfl⟩ := brokers_eq_some hnew
        exact ⟨rfl, rfl⟩
    · intro token b hb
      rw [step_post, getElem?_sessions_sweep] at hb
      rcases open_of_handled signer s e token b (Option.eq_some_of_filter_eq_some hb) with
        hold | hopens
      · exact htokens token b hold
      · obtain ⟨p, hp, heq⟩ := Option.map_eq_some_iff.mp hopens
        obtain ⟨rfl, rfl⟩ := Prod.mk.inj heq
        obtain ⟨hs, hd⟩ := numeric_of_brokers hr hn hp
        exact ⟨p.1.1, p.1.2, hs, hd, rfl⟩

/-- A candidate that one peer sends to another. -/
theorem brokered_registered : Brokered (calls (step insecureTestSigner) { lastSweep := 0 }
    [.datagram { host := "10.0.0.1", port := 1 }
        (encodeFrame { type := .register, id := [9], body := List.replicate 32 5 }) 10 10,
      .datagram { host := "10.0.0.2", port := 2 }
        (encodeFrame { type := .brokerCandidates, id := [9] }) 12 13])
    (final (step insecureTestSigner) { lastSweep := 0 }
      [.datagram { host := "10.0.0.1", port := 1 }
        (encodeFrame { type := .register, id := [9], body := List.replicate 32 5 }) 10 10,
      .datagram { host := "10.0.0.2", port := 2 }
        (encodeFrame { type := .brokerCandidates, id := [9] }) 12 13]) := by
  refine brokered (run_calls _ _) ?_
  simp only [Sourced, calls, List.forall_mem_cons, call_op]
  refine ⟨?_, ?_, by simp⟩
  · rintro src data now sweepNow ⟨⟩
    simp [Endpoint.Numeric, Endpoint.addressChar]
  · rintro src data now sweepNow ⟨⟩
    simp [Endpoint.Numeric, Endpoint.addressChar]

end Redesk.Rendezvous.Loop
