import Redesk.Machine.Lease
import Redesk.Relay.Refusal
import Redesk.Server.Net

/-! How long the relay keeps an allocation: it is a lease that every datagram for its token renews.
While it lasts, its two legs reach each other, and no more allocations stand than datagrams came in
lately. -/
namespace Redesk.Relay.Loop
open Server Machine

variable {r r₀ : Loop} {h : List Call} {t : SessionToken} {e : Event} {al : Allocation}
  {x y : Endpoint} {hxy : x ≠ y} {s : Seats Endpoint} {now start : ℤ} {c : Call}

/-- When a datagram for `t` comes in. -/
def renewal (t : SessionToken) (c : Call) : Option ℤ := (arrival t c).bind fun _ => c.op.received

/-- When the last datagram for `t` came in, as the table has it. -/
def lastActivity (t : SessionToken) (r : Loop) : Option ℤ :=
  r.table[t]?.map Allocation.lastActivityUnixS

/-- The sweep of the round is due, and finds an allocation that was last active too long ago. -/
def Drops (r : Loop) (last sweepNow : ℤ) : Prop :=
  sweepNow - r.lastSweep ≥ kExpirySweepSeconds ∧ kSessionTtlSeconds < sweepNow - last

instance {last sweepNow : ℤ} : Decidable (Drops r last sweepNow) :=
  inferInstanceAs (Decidable (_ ∧ _))

/-- The call takes away the allocation of `t`, which was last active at `last`. -/
def Loses (t : SessionToken) (c : Call) (last : ℤ) : Prop :=
  Drops c.pre ((renewal t c).getD last) c.op.sweepNow

/-- The relay after the datagram of a round, before its sweep. -/
def handled (r : Loop) : Event → Loop
  | .datagram src data now _ => { r with table := (handle r.table src data now).2 }
  | .nothing _ => r

theorem step_post : (r.step e).2 = (handled r e).sweep e.sweepNow := by
  cases e <;> rfl

@[simp] theorem lastSweep_handled : (handled r e).lastSweep = r.lastSweep := by
  cases e <;> rfl

theorem getElem?_sweep : (r.sweep now).table[t]? =
    r.table[t]?.filter fun al => !decide (Drops r al.lastActivityUnixS now) := by
  unfold sweep
  split
  · rename_i hdue
    have hdrops (last : ℤ) : Drops r last now ↔ now - last > kSessionTtlSeconds :=
      and_iff_right hdue
    simp only [hdrops]
    rw [AllocationTable.expire_eq_sweep, Expiry.getElem?_sweep]
  · rename_i hdue
    have hdrops (last : ℤ) : ¬ Drops r last now := fun h => hdue h.1
    cases r.table[t]? <;> simp [hdrops, Option.filter_some]

theorem renewal_of_arrival {data : Bytes} {now : ℤ} (ha : arrival t c = some (x, data))
    (hr : c.op.received = some now) : renewal t c = some now := by
  rw [renewal, ha, Option.bind_some, hr]

variable (r e t) in
/-- A datagram leaves the allocation of its token active, and the others as they were. -/
theorem getElem?_handled :
    (∃ now al, renewal t (call step r e) = some now ∧ (handled r e).table[t]? = some al ∧
      al.lastActivityUnixS = now) ∨
    renewal t (call step r e) = none ∧ (handled r e).table[t]? = r.table[t]? := by
  cases e with
  | nothing sweepNow => exact .inr ⟨rfl, rfl⟩
  | datagram src data now sweepNow =>
    cases hp : parseDatagram data with
    | none => exact .inr ⟨by simp [renewal, arrival, hp], by rw [handled, handle_of_none hp]⟩
    | some p =>
      obtain ⟨token, payload⟩ := p
      have hentry : (handle r.table src data now).2[t]? = _ := (handle_of_some hp).2 t
      by_cases ht : token = t
      · subst ht
        rw [if_pos rfl] at hentry
        refine .inl ⟨now, _, ?_, hentry, Allocation.lastActivity_route⟩
        exact renewal_of_arrival (arrival_eq_some.mpr ⟨now, sweepNow, payload, rfl, hp⟩) rfl
      · rw [if_neg ht] at hentry
        exact .inr ⟨by simp [renewal, arrival, hp, ht], hentry⟩

theorem lastActivity_sweep : lastActivity t (r.sweep now) =
    (lastActivity t r).filter fun last => !decide (Drops r last now) := by
  rw [lastActivity, lastActivity, getElem?_sweep]
  cases r.table[t]? with
  | none => rfl
  | some al => by_cases hd : Drops r al.lastActivityUnixS now <;> simp [Option.filter_some, hd]

theorem drops_handled {last : ℤ} : Drops (handled r e) last now ↔ Drops r last now := by
  rw [Drops, Drops, lastSweep_handled]

/-- An allocation is a lease. -/
theorem lastActivity_fares :
    Lease.Fares (lastActivity t) (renewal t) (Loses t) (call step r e) := by
  intro last hlast
  have hhandled : lastActivity t (handled r e) =
      some ((renewal t (call step r e)).getD last) := by
    rcases getElem?_handled r t e with ⟨now, al, hrenew, hal, rfl⟩ | ⟨hrenew, hsame⟩
    · rw [lastActivity, hal, hrenew]
      rfl
    · rw [lastActivity, hsame, hrenew]
      exact hlast
  rw [call_post, step_post, lastActivity_sweep, hhandled, Option.filter_some]
  simp only [drops_handled]
  by_cases hd : Drops r ((renewal t (call step r e)).getD last) e.sweepNow
  · exact .inl ⟨hd, by simp [hd]⟩
  · exact .inr ⟨hd, by simp [hd]⟩

/-- Both seats stay taken as long as the allocation lasts. -/
theorem two_stay (hs : SeatedAt r₀.table t (.two x y hxy)) (hr : Run r₀ h r)
    (hlives : ∀ c ∈ h, c.post.table[t]? ≠ none) : SeatedAt r.table t (.two x y hxy) := by
  refine (hr.keeps (R := fun r => SeatedAt r.table t (.two x y hxy)) hs ?_).1
  intro c hc hpre
  have hlive := hlives c hc
  rw [hr.call_of_mem hc] at hlive ⊢
  rw [call_post] at hlive ⊢
  cases ha : arrival t (call step c.pre c.op) with
  | none =>
    have hsame := (round_of_no_arrival ha).2.resolve_right hlive
    rw [SeatedAt, hsame]
    exact hpre
  | some p =>
    obtain ⟨z, data⟩ := p
    exact (round_of_arrival ha hpre).2.resolve_right hlive

theorem emission_of_two (hs : SeatedAt r.table t (.two x y hxy)) :
    emission t (call step r e) = (arrival t (call step r e)).bind (towards x y) := by
  cases ha : arrival t (call step r e) with
  | none => exact (round_of_no_arrival ha).1
  | some p =>
    obtain ⟨z, data⟩ := p
    rw [(round_of_arrival ha hs).1, Option.bind_some, towards, Seats.claim, Seats.partner]
    split
    · rfl
    · split <;> rfl

/-- What the two ends of the allocation `al` of `t` can count on in the calls `h`. -/
structure Paired (t : SessionToken) (al : Allocation) (x y : Endpoint) (h : List Call) : Prop where
  lasts : (∀ c ∈ h, c.post.table[t]? ≠ none) ↔
    Along (fun a c => ¬ Loses t c (Lease.current (renewal t) al.lastActivityUnixS a)) h
  relayed : (∀ c ∈ h, c.post.table[t]? ≠ none) →
    ∀ c ∈ h, emission t c = (arrival t c).bind (towards x y)

/-- In every state an allocation with two legs lasts just as long as datagrams for it keep coming,
and passes what one end sends to the other. -/
theorem paired (hal : r₀.table[t]? = some al)
    (hs : al.Seated (.two x y hxy)) (hr : Run r₀ h r) : Paired t al x y h := by
  have hlease : lastActivity t r₀ = some al.lastActivityUnixS := by rw [lastActivity, hal]; rfl
  have hfares : ∀ c ∈ h, Lease.Fares (lastActivity t) (renewal t) (Loses t) c := by
    intro c hc
    rw [hr.call_of_mem hc]
    exact lastActivity_fares
  constructor
  · rw [← Lease.lasts_iff hr hlease hfares]
    simp [lastActivity]
  · intro hlives c hc
    obtain ⟨a, b, rfl⟩ := List.append_of_mem hc
    obtain ⟨hra, hcall, -⟩ := hr.split
    have hseated : SeatedAt r₀.table t (.two x y hxy) := by
      rw [SeatedAt, hal]
      exact hs
    rw [hcall]
    exact emission_of_two (two_stay hseated hra fun d hd => hlives d (by simp [hd]))

theorem paired_two_sources : Paired [7] (((final step { lastSweep := 0 }
      [.datagram { port := 1 } [1, 7] 0 0, .datagram { port := 2 } [1, 7] 1 1]).table[
        ([7] : SessionToken)]?).getD {}) { port := 1 } { port := 2 }
    (calls step (final step { lastSweep := 0 }
        [.datagram { port := 1 } [1, 7] 0 0, .datagram { port := 2 } [1, 7] 1 1])
      [.datagram { port := 1 } [1, 7, 8] 25 25, .nothing 40, .datagram { port := 3 } [1, 7] 50 50,
        .datagram { port := 2 } [1, 7, 9] 60 60, .nothing 100]) := by
  have hs : (((final step { lastSweep := 0 } [.datagram { port := 1 } [1, 7] 0 0,
      .datagram { port := 2 } [1, 7] 1 1]).table[([7] : SessionToken)]?).getD {}).Seated
        (.two { port := 1 } { port := 2 } (by decide)) := ⟨by decide, by decide⟩
  exact paired (by decide) hs (run_calls _ _)

/-- The allocation that a datagram leaves for its token. -/
def opens (c : Call) : Option (SessionToken × Allocation) :=
  match c.op with
  | .datagram src data now _ => (parseDatagram data).bind fun p =>
      (handle c.pre.table src data now).2[p.1]?.map fun al => (p.1, al)
  | .nothing _ => none

variable (r e) in
theorem open_of_handled (t al) (hal : (handled r e).table[t]? = some al) :
    r.table[t]? = some al ∨ opens (call step r e) = some (t, al) := by
  cases e with
  | nothing sweepNow => exact .inl hal
  | datagram src data now sweepNow =>
    cases hp : parseDatagram data with
    | none =>
      rw [handled, handle_of_none hp] at hal
      exact .inl hal
    | some p =>
      obtain ⟨token, payload⟩ := p
      by_cases ht : token = t
      · subst ht
        exact .inr (by simpa [opens, hp, handled] using hal)
      · have hentry : (handle r.table src data now).2[t]? = _ := (handle_of_some hp).2 t
        rw [if_neg ht] at hentry
        exact .inl (hentry.symm.trans hal)

theorem received_of_opens (hc : opens (call step r e) = some (t, al)) :
    e.received = some al.lastActivityUnixS := by
  cases e with
  | nothing sweepNow => cases hc
  | datagram src data now sweepNow =>
    obtain ⟨⟨token, payload⟩, hp, hal⟩ := Option.bind_eq_some_iff.mp hc
    obtain ⟨al', hentry, heq⟩ := Option.map_eq_some_iff.mp hal
    obtain ⟨rfl, rfl⟩ := Prod.mk.inj heq
    simp only [call_pre, (handle_of_some hp).2, if_true] at hentry
    rw [← Option.some.inj hentry, Allocation.lastActivity_route]
    rfl

/-- What the relay keeps after the calls `h`: the allocations that were active lately. -/
structure Housekept (start : ℤ) (h : List Call) (r : Loop) : Prop where
  active : ∀ t al, r.table[t]? = some al → latest (renewal t) h = some al.lastActivityUnixS ∧
    clock start h - al.lastActivityUnixS < kSessionTtlSeconds + kExpirySweepSeconds
  size : r.table.size ≤ datagramsWithin (kSessionTtlSeconds + kExpirySweepSeconds) start h

theorem backed_run (hr : Run { lastSweep := start } h r) : Lease.Backed opens h r.table := by
  induction hr with
  | nil => exact Lease.backed_empty
  | @snoc h r hr e ih =>
    have hopened := ih.round (open_of_handled r e)
    rw [step_post, sweep]
    split
    · exact hopened.sweep
    · exact hopened

theorem latest_run (hr : Run { lastSweep := start } h r) (hal : r.table[t]? = some al) :
    latest (renewal t) h = some al.lastActivityUnixS := by
  induction hr generalizing al with
  | nil => simp at hal
  | @snoc h r hr e ih =>
    rw [step_post, getElem?_sweep] at hal
    have hal := Option.eq_some_of_filter_eq_some hal
    rw [latest_snoc]
    rcases getElem?_handled r t e with ⟨now, al', hrenew, hal', rfl⟩ | ⟨hrenew, hsame⟩
    · obtain rfl := Option.some.inj (hal.symm.trans hal')
      rw [hrenew]
      rfl
    · rw [hrenew, Option.none_or]
      exact ih (hsame.symm.trans hal)

/-- The table has been swept lately. -/
def Swept (start : ℤ) (h : List Call) (r : Loop) : Prop :=
  Lease.Tended (·.lastActivityUnixS) kSessionTtlSeconds kExpirySweepSeconds r.table r.lastSweep
    (clock start h)

theorem swept_step (hi : Swept start h r) (he : e.From (clock start h)) :
    Swept start (h ++ [call step r e]) (r.step e).2 := by
  have htable := Lease.Tended.round hi (by decide) (by decide) (fun t al hal =>
    (open_of_handled r e t al hal).imp_right fun hc => he.received (received_of_opens hc)) he.le
  rw [Swept, step_post, sweep, lastSweep_handled, clock_snoc]
  by_cases hdue : e.sweepNow - r.lastSweep ≥ kExpirySweepSeconds
  · rw [if_pos hdue] at htable ⊢
    exact htable
  · rw [if_neg hdue] at htable ⊢
    rw [lastSweep_handled]
    exact htable

theorem swept_run (hr : Run { lastSweep := start } h r) (ht : Chronological start h) :
    Swept start h r := by
  refine hr.invariant_of_along ?_ (fun _ _ _ _ hi he => swept_step hi he) ht
  exact ⟨Lease.within_empty, le_rfl, by simp [kExpirySweepSeconds]⟩

theorem relay_housekept (hr : Run { lastSweep := start } h r) (ht : Chronological start h) :
    Housekept start h r := by
  have hswept := swept_run hr ht
  refine ⟨fun t al hal => ⟨latest_run hr hal, hswept.lt hal⟩, ?_⟩
  refine (hswept.size_le (backed_run hr)).trans (List.countP_mono_left ?_)
  intro c hc hw
  rw [hr.call_of_mem hc] at hw ⊢
  obtain ⟨⟨t, al⟩, hopens, hlate⟩ := (Option.any_eq_true _ _).mp hw
  rw [call_op, received_of_opens hopens]
  exact hlate

theorem relay_housekept_two_sources : Housekept 0 (calls step { lastSweep := 0 }
    [.datagram { port := 1 } [1, 7] 0 0, .datagram { port := 2 } [1, 7] 1 1, .nothing 30])
    (final step { lastSweep := 0 }
      [.datagram { port := 1 } [1, 7] 0 0, .datagram { port := 2 } [1, 7] 1 1, .nothing 30]) := by
  refine relay_housekept (run_calls _ _) ?_
  simp only [Chronological, calls, along_cons]
  exact ⟨by decide, by decide, by decide, along_nil⟩

end Redesk.Relay.Loop
