import Redesk.Ui.SessionController

/-! Attempts that were torn down: when the timers of the controller leave them alone. -/
namespace Redesk.Ui.SessionController
open Machine

variable {c s : SessionController} {a b h : List Call} {d : Call} {e : Event}

/-- The user has disconnected, and no new session was accepted since. -/
def TornDown (h : List Call) : Prop := Since Disconnects Accepts h

/-- How often a session has started. -/
def started (h : List Call) : ℕ := (h.map fun d => d.res.count .sessionStarted).sum

/-- After the calls `a` the call `d` leaves a session that was torn down as it is, and does not
start a session for the second time. -/
structure StaysDown (a : List Call) (d : Call) : Prop where
  idle : TornDown (a ++ [d]) → d.post.state = .idle
  silent : TornDown a → .sessionStarted ∉ d.res
  once : ∀ a' d' b, a ++ [d] = a' ++ d' :: b → Accepts d' → (∀ e ∈ b, ¬ Disconnects e) →
    started b ≤ 1

/-- A timer behind the PIN expires while there is a session, and the last one for the first time
since the session was accepted. -/
def OnTime (a : List Call) (d : Call) : Prop :=
  ∀ t, t ≠ .resolved → Expires t d →
    d.pre.state ≠ .idle ∧ (t = .established → ¬ Since (Expires .established) Accepts a)

/-- What a run whose timers were on time tells of its state: there is a session just when one was
accepted and not ended since, and without one no timer is left but from before the user
disconnected. -/
structure Tracked (h : List Call) (s : SessionController) : Prop where
  session : s.state ≠ .idle ↔ Since Accepts Disconnects h
  neverFailed : s.state ≠ .failed
  timers : s.state = .idle → TornDown h ∨ s.timers = []

/-- What a call does to the session as a whole. -/
theorem step_cases (c : SessionController) (e : Event) :
    (Accepts (call step c e) ∧ (step c e).2.state = .resolving) ∨
    (Disconnects (call step c e) ∧ (step c e).2.state = .idle) ∨
    (∃ t, t ≠ .resolved ∧ Expires t (call step c e) ∧
      ((step c e).2.state = .connecting ∨ (step c e).2.state = .connected)) ∨
    (¬ Accepts (call step c e) ∧ ¬ Disconnects (call step c e) ∧
      ((step c e).2.state = c.state ∨
        c.state = .resolving ∧ (step c e).2.state = .authenticating)) := by
  by_cases ha : Accepts (call step c e)
  · exact .inl ⟨ha, state_of_accepts ha⟩
  by_cases hd : Disconnects (call step c e)
  · have he : e = .disconnect := hd
    subst he
    exact .inr (.inl ⟨hd, state_of_disconnects⟩)
  by_cases ht : ∃ t, t ≠ .resolved ∧ Expires t (call step c e)
  · obtain ⟨t, hne, hop, hm⟩ := ht
    rw [call_op] at hop
    rw [call_pre] at hm
    subst hop
    refine .inr (.inr (.inl ⟨t, hne, ⟨rfl, hm⟩, ?_⟩))
    cases t with
    | resolved => exact absurd rfl hne
    | verified => exact .inl (state_of_expires_verified hm)
    | established => exact .inr (state_of_expires_established hm)
  · exact .inr (.inr (.inr ⟨ha, hd,
      state_of_quiet ha hd fun t hne hexp => ht ⟨t, hne, hexp⟩⟩))

/-- With timers that are on time a session begins when it is accepted and ends with a disconnect. -/
theorem session_step (hq : OnTime h (call step c e)) : (step c e).2.state ≠ .idle ↔
    Accepts (call step c e) ∨ ¬ Disconnects (call step c e) ∧ c.state ≠ .idle := by
  rcases step_cases c e with ⟨ha, hs⟩ | ⟨hd, hs⟩ | ⟨t, hne, hexp, hs⟩ | ⟨ha, hd, hs⟩
  · exact iff_of_true (by simp [hs]) (.inl ha)
  · refine iff_of_false (by simp [hs]) ?_
    rintro (ha | ⟨hnd, -⟩)
    · exact not_accepts_of_disconnects hd ha
    · exact hnd hd
  · have hnd : ¬ Disconnects (call step c e) := by
      intro hd
      cases hd.symm.trans hexp.1
    refine iff_of_true ?_ (.inr ⟨hnd, (hq t hne hexp).1⟩)
    rcases hs with hs | hs <;> simp [hs]
  · have hsame : (step c e).2.state = .idle ↔ c.state = .idle := by
      rcases hs with hs | ⟨hpre, hs⟩
      · rw [hs]
      · simp [hpre, hs]
    simp [ha, hd, hsame]

theorem neverFailed_step (hn : c.state ≠ .failed) : (step c e).2.state ≠ .failed := by
  rcases step_cases c e with ⟨-, hs⟩ | ⟨-, hs⟩ | ⟨t, -, -, hs | hs⟩ | ⟨-, -, hs | ⟨-, hs⟩⟩
  all_goals simp [hs, hn]

theorem tracked_step (ht : Tracked h c) (hq : OnTime h (call step c e)) :
    Tracked (h ++ [call step c e]) (step c e).2 where
  session := by rw [session_step hq, since_snoc, ht.session]
  neverFailed := neverFailed_step ht.neverFailed
  timers := by
    intro hidle
    have hnone := mt (session_step hq).mpr (not_not.mpr hidle)
    obtain ⟨ha, hd⟩ := not_or.mp hnone
    by_cases hdisc : Disconnects (call step c e)
    · exact .inl (since_snoc.mpr (.inl hdisc))
    · have hpre : c.state = .idle := by
        by_contra hbusy
        exact hd ⟨hdisc, hbusy⟩
      rcases ht.timers hpre with hdown | hnil
      · exact .inl (since_snoc.mpr (.inr ⟨ha, hdown⟩))
      · exact .inr (timers_of_idle hpre hnil ha)

theorem tracked_run (hr : Run {} h s) (hq : Along OnTime h) : Tracked h s := by
  refine hr.invariant_of_along ?_ (fun h s e _ ht hc => tracked_step ht hc) hq
  constructor
  · exact iff_of_false (fun hn => hn rfl) since_nil
  · decide
  · exact fun _ => .inr rfl

theorem Tracked.down (ht : Tracked h s) (hdown : TornDown h) : s.state = .idle := by
  by_contra hbusy
  exact hdown.not_since (fun _ => not_accepts_of_disconnects) (ht.session.mp hbusy)

/-- Nothing is accepted during a session. -/
theorem Tracked.not_accepts (ht : Tracked h c) (hactive : Since Accepts Disconnects h) :
    ¬ Accepts (call step c e) := by
  rintro ⟨id, -, -, hstate⟩
  rcases hstate with hstate | hstate
  · exact ht.session.mpr hactive hstate
  · exact ht.neverFailed hstate

theorem started_append : started (a ++ b) = started a + started b := by
  simp [started]

/-- Within a session the starts are the expiries of its last timer, of which there is one. -/
theorem started_le_one (hr : Run {} h s) (hq : Along OnTime h) (hs : h = a ++ d :: b)
    (hd : Accepts d) (hb : ∀ e ∈ b, ¬ Disconnects e) :
    started b ≤ 1 ∧ (0 < started b → Since (Expires .established) Accepts h) := by
  induction hr generalizing b with
  | nil => simp at hs
  | @snoc h s hr e ih =>
    obtain ⟨hqh, hqc⟩ := along_snoc.mp hq
    rcases snoc_eq_append_cons hs with ⟨-, -, rfl⟩ | ⟨b', rfl, hs'⟩
    · exact ⟨Nat.zero_le _, fun hpos => absurd hpos (by simp [started])⟩
    · have hb' : ∀ e ∈ b', ¬ Disconnects e := fun e he => hb e (by simp [he])
      obtain ⟨hle, hsince⟩ := ih hqh hs' hb'
      have hactive : Since Accepts Disconnects h := ⟨a, d, b', hs', hd, hb'⟩
      have hna : ¬ Accepts (call step s e) :=
        (tracked_run hr hqh).not_accepts hactive
      have hone : started [call step s e] = (step s e).1.count .sessionStarted := by
        simp [started]
      rw [started_append, hone]
      by_cases hexp : Expires .established (call step s e)
      · have hfirst : started b' = 0 := by
          by_contra hpos
          exact (hqc .established (by decide) hexp).2 rfl (hsince (Nat.pos_of_ne_zero hpos))
        rw [hfirst, count_sessionStarted_eq_one hexp]
        exact ⟨le_rfl, fun _ => since_snoc.mpr (.inl hexp)⟩
      · rw [count_sessionStarted_eq_zero hexp]
        exact ⟨hle, fun hpos => since_snoc.mpr (.inr ⟨hna, hsince hpos⟩)⟩

/-- An expiry of the last timer is a start. -/
theorem one_le_started (hr : Run {} h s) (hd : d ∈ h) (hexp : Expires .established d)
    (hb : d ∈ b) : 1 ≤ started b := by
  have hcall := hr.call_of_mem hd
  have hone : d.res.count .sessionStarted = 1 := by
    rw [hcall] at hexp ⊢
    exact count_sessionStarted_eq_one hexp
  obtain ⟨b₁, b₂, rfl⟩ := List.append_of_mem hb
  have hhead : started (d :: b₂) = d.res.count .sessionStarted + started b₂ := by
    simp [started]
  rw [started_append, hhead]
  omega

theorem onTime_of_staysDown (hr : Run {} h c) (ht : Tracked h c)
    (hp : StaysDown h (call step c e)) : OnTime h (call step c e) := by
  intro t hne hexp
  have hna := not_accepts_of_expires hexp
  have hm : t ∈ c.timers := hexp.2
  have he : e = .expire t := hexp.1
  subst he
  have hstate : c.state ≠ .idle := by
    intro hidle
    rcases ht.timers hidle with hdown | hnone
    · cases t with
      | resolved => exact hne rfl
      | verified =>
        have hpost := hp.idle (since_snoc.mpr (.inr ⟨hna, hdown⟩))
        rw [call_post, state_of_expires_verified hm] at hpost
        cases hpost
      | established =>
        have hstarts := count_sessionStarted_eq_one hexp
        exact hp.silent hdown (List.count_pos_iff.mp (by rw [call_res, hstarts]; exact Nat.one_pos))
    · rw [hnone] at hm
      cases hm
  refine ⟨hstate, ?_⟩
  rintro rfl hsince
  -- the session has started before, by an expiry after it was accepted
  obtain ⟨a, d, b, rfl, hd, hb, e, he, hexp'⟩ :=
    (ht.session.mp hstate).exists_mem_after hsince fun _ => not_accepts_of_expires
  have hnd : ∀ f ∈ b ++ [call step c (.expire .established)], ¬ Disconnects f := by
    intro f hf
    rcases List.mem_append.mp hf with hf | hf
    · exact hb f hf
    · rw [List.mem_singleton.mp hf]
      intro hdisc
      cases hdisc
  have honce := hp.once a d (b ++ [call step c (.expire .established)]) (by simp) hd hnd
  have hbefore : 1 ≤ started b := one_le_started hr (by simp [he]) hexp' he
  have hlast : started [call step c (.expire .established)] = 1 := by
    simp [started, count_sessionStarted_eq_one hexp]
  rw [started_append, hlast] at honce
  omega

theorem staysDown_of_onTime (hr : Run {} h c) (ht : Tracked h c) (hqh : Along OnTime h)
    (hq : OnTime h (call step c e)) : StaysDown h (call step c e) where
  idle := (tracked_step ht hq).down
  silent := by
    intro hdown hmem
    have hn : ¬ Expires .established (call step c e) :=
      fun hexp => (hq .established (by decide) hexp).1 (ht.down hdown)
    have hpos := List.count_pos_iff.mpr hmem
    rw [call_res, count_sessionStarted_eq_zero hn] at hpos
    exact Nat.lt_irrefl 0 hpos
  once a' d' b hs hd hb :=
    (started_le_one (hr.snoc e) (along_snoc.mpr ⟨hqh, hq⟩) hs hd hb).1

/-- In a run of the controller every attempt stays torn down, and starts once at most, just when its
timers expire on time. -/
theorem staysDown_iff (hr : Run {} h s) : Along StaysDown h ↔ Along OnTime h := by
  apply hr.along_iff (I := fun h s => Tracked h s ∧ Along OnTime h)
  · exact ⟨tracked_run .nil along_nil, along_nil⟩
  · intro h s e _ ⟨ht, hqh⟩ hq
    exact ⟨tracked_step ht hq, along_snoc.mpr ⟨hqh, hq⟩⟩
  · intro h s e hr ⟨ht, hqh⟩
    exact ⟨onTime_of_staysDown hr ht, staysDown_of_onTime hr ht hqh⟩

theorem staysDown_before_verified : Along StaysDown (calls step {}
    [.connectToId "1", .expire .resolved, .enterPin "1", .disconnect]) := by
  refine (staysDown_iff (run_calls _ _)).mpr ?_
  rintro a d b hs t hne ⟨hop, -⟩
  have hops : d.op ∈ (a ++ d :: b).map (·.op) := List.mem_map_of_mem (by simp)
  rw [← hs, map_op_calls, hop] at hops
  simp [hne] at hops

/-- The PIN is verified after the user has disconnected, and the session goes on. -/
theorem not_staysDown_verified : ¬ Along StaysDown (calls step {}
    [.connectToId "1", .expire .resolved, .enterPin "1", .disconnect, .expire .verified]) := by
  intro hp
  have hlast := hp (calls step {}
    [.connectToId "1", .expire .resolved, .enterPin "1", .disconnect])
    (call step (final step {}
      [.connectToId "1", .expire .resolved, .enterPin "1", .disconnect]) (.expire .verified)) [] rfl
  have hdown : TornDown (calls step {}
      [.connectToId "1", .expire .resolved, .enterPin "1", .disconnect, .expire .verified]) := by
    refine ⟨calls step {} [.connectToId "1", .expire .resolved, .enterPin "1"],
      call step (final step {} [.connectToId "1", .expire .resolved, .enterPin "1"]) .disconnect,
      [call step (final step {}
        [.connectToId "1", .expire .resolved, .enterPin "1", .disconnect]) (.expire .verified)],
      rfl, rfl, ?_⟩
    intro d hd
    rw [List.mem_singleton.mp hd]
    rintro ⟨id, hop, -⟩
    cases hop
  exact absurd (hlast.idle hdown) (by decide)

end Redesk.Ui.SessionController
