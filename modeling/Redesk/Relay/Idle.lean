import Redesk.Relay.Forward

/-! Idle allocations: what a datagram meets when the legs of its allocation have been silent for
longer than the time to live. -/
namespace Redesk.Relay
open Server Machine

/-- `src` holds a leg of the allocation. -/
def Allocation.holds (al : Allocation) (src : Endpoint) : Bool :=
  decide (al.a.holder = some src) || decide (al.b.holder = some src)

namespace Loop

variable {r r₀ : Loop} {table : AllocationTable} {h : List Call} {t : SessionToken} {e : Event}
  {src : Endpoint} {data payload : Bytes} {now sweepNow : ℤ} {s : Seats Endpoint}

/-- The time of a datagram for `t` that comes from a leg of its allocation. -/
def legTraffic (t : SessionToken) (c : Call) : Option ℤ :=
  match c.op with
  | .datagram src data now _ =>
    if (parseDatagram data).map Prod.fst = some t ∧
        ((handle c.pre.table src data now).2[t]?.any (·.holds src)) = true then some now
    else none
  | .nothing _ => none

/-- A datagram for `t` meets an allocation whose legs have been silent for too long. -/
def Stale (t : SessionToken) (a : List Call) (c : Call) (src : Endpoint) (payload : Bytes)
    (now : ℤ) : Prop :=
  (∃ data sweepNow, c.op = .datagram src data now sweepNow ∧
    parseDatagram data = some (t, payload)) ∧ c.pre.table[t]? ≠ none ∧
      ∃ last, latest (legTraffic t) a = some last ∧ now - last > kSessionTtlSeconds

/-- The routing of a datagram for `t` that `handle` makes. -/
def routed (table : AllocationTable) (t : SessionToken) (src : Endpoint) (payload : Bytes)
    (now : ℤ) : Result Endpoint × AllocationTable :=
  (table.allocate t now).2.route t src (UInt64.ofNat payload.length) now

/-- The datagram gets the answer, and leaves the legs, that it would if the allocation of `t` had
been removed. -/
def AsRemoved (table : AllocationTable) (t : SessionToken) (src : Endpoint) (payload : Bytes)
    (now : ℤ) : Prop :=
  (routed table t src payload now).1 = (routed (table.erase t) t src payload now).1 ∧
    (routed table t src payload now).2[t]?.map (fun al => (al.a.holder, al.b.holder)) =
      (routed (table.erase t) t src payload now).2[t]?.map fun al => (al.a.holder, al.b.holder)

/-- No datagram is treated by the legs of an idle allocation. -/
def IdleFree (t : SessionToken) (h : List Call) : Prop :=
  Along (fun a c => ∀ src payload now, Stale t a c src payload now →
    AsRemoved c.pre.table t src payload now) h

variable (src payload now) in
theorem routed_eq (hne : t ≠ []) (hs : SeatedAt table t s) :
    (routed table t src payload now).1 = Allocation.answer (s.claim src) src ∧
      (routed table t src payload now).2[t]?.map (fun al => (al.a.holder, al.b.holder)) =
        some ((s.claim src).first, (s.claim src).second) := by
  obtain ⟨⟨ha, hb⟩, hanswer, -⟩ :=
    (hs.created now t).route src (UInt64.ofNat payload.length) now
  constructor
  · rw [routed, AllocationTable.route_fst, AllocationTable.getElem?_allocate hne, if_pos rfl]
    exact hanswer
  · rw [routed, AllocationTable.getElem?_route, if_pos rfl,
      AllocationTable.getElem?_allocate hne, if_pos rfl, Option.map_some, Option.map_some, ha, hb]

/-- The seats tell a datagram apart from one for a removed allocation by any other guest. -/
theorem asRemoved_iff (hne : t ≠ []) (hs : SeatedAt table t s) :
    AsRemoved table t src payload now ↔
      ∀ e, s.first = some e ∨ s.second = some e → e = src := by
  have hfree : SeatedAt (table.erase t) t .empty := by
    rw [SeatedAt, Std.ExtTreeMap.getElem?_erase_self]
    exact Allocation.seated_default
  obtain ⟨hanswer, hlegs⟩ := routed_eq src payload now hne hs
  obtain ⟨hanswer', hlegs'⟩ := routed_eq src payload now hne hfree
  rw [AsRemoved, hanswer, hanswer', hlegs, hlegs', ← Seats.claim_eq_one_iff]
  constructor
  · rintro ⟨-, hsame⟩
    obtain ⟨hfirst, hsecond⟩ := Prod.mk.inj (Option.some.inj hsame)
    exact Seats.eq_one_iff.mpr ⟨hfirst, hsecond⟩
  · intro hone
    rw [hone]
    exact ⟨rfl, rfl⟩

theorem seatedAt_run {start : ℤ} (hr : Run { lastSweep := start } h r) (t : SessionToken) :
    ∃ s, SeatedAt r.table t s := by
  have hfree {table : AllocationTable} (hnone : table[t]? = none) : SeatedAt table t .empty := by
    rw [SeatedAt, hnone]
    exact Allocation.seated_default
  induction hr with
  | nil => exact ⟨.empty, hfree rfl⟩
  | @snoc h r hr e ih =>
    obtain ⟨s, hs⟩ := ih
    cases ha : arrival t (call step r e) with
    | none =>
      rcases (round_of_no_arrival ha).2 with hsame | hnone
      · exact ⟨s, by rw [SeatedAt, hsame]; exact hs⟩
      · exact ⟨.empty, hfree hnone⟩
    | some p =>
      obtain ⟨x, data⟩ := p
      rcases (round_of_arrival ha hs).2 with hnext | hnone
      · exact ⟨s.claim x, hnext⟩
      · exact ⟨.empty, hfree hnone⟩

/-- Idle legs never decide about a datagram, throughout a run, just when none arrives for an
allocation with idle legs one of which another endpoint holds. -/
theorem idleFree_iff {start : ℤ} (hr : Run { lastSweep := start } h r) : IdleFree t h ↔
    Along (fun a c => ∀ src payload now, Stale t a c src payload now →
      ∀ al, c.pre.table[t]? = some al →
        ∀ e, al.a.holder = some e ∨ al.b.holder = some e → e = src) h := by
  apply hr.along_iff (I := fun _ _ => True)
  · trivial
  · exact fun _ _ _ _ _ _ => trivial
  · intro a r e hr _
    refine forall_congr' fun src => forall_congr' fun payload => forall_congr' fun now => ?_
    refine forall_congr' fun hstale => ?_
    obtain ⟨⟨data, sweepNow, -, hp⟩, hlives, -⟩ := hstale
    obtain ⟨s, hs⟩ := seatedAt_run hr t
    obtain ⟨al, hal⟩ := Option.ne_none_iff_exists'.mp hlives
    rw [call_pre] at hal ⊢
    rw [asRemoved_iff (wrap_of_parse hp).2 hs]
    rw [SeatedAt, hal] at hs
    obtain ⟨ha, hb⟩ := hs
    rw [← ha, ← hb]
    constructor
    · intro hfree al' hal'
      rw [hal] at hal'
      obtain rfl := Option.some.inj hal'
      exact hfree
    · intro hfree
      exact hfree al hal

theorem idleFree_lone_source : IdleFree [7] (calls step { lastSweep := 0 }
    [.datagram { port := 1 } [1, 7] 0 0, .datagram { port := 1 } [1, 7, 5] 100 100]) := by
  refine (idleFree_iff (run_calls _ _)).mpr ?_
  simp only [calls, along_cons]
  refine ⟨?_, ?_, along_nil⟩
  · intro src payload now _ al hal
    cases hal
  · rintro src payload now ⟨⟨data, sweepNow, hop, -⟩, -⟩ al hal e he
    cases hop
    have hlegs : (Loop.step { lastSweep := 0 }
        (.datagram { port := 1 } [1, 7] 0 0)).2.table[([7] : SessionToken)]?.map
          (fun al => (al.a.holder, al.b.holder)) = some (some { port := 1 }, none) := by decide
    rw [call_pre] at hal
    rw [hal] at hlegs
    obtain ⟨ha, hb⟩ := Prod.mk.inj (Option.some.inj hlegs)
    rw [ha, hb] at he
    rcases he with he | he
    · exact (Option.some.inj he).symm
    · cases he

/-- A third source is refused for as long as it keeps trying: its datagrams keep alive the
allocation whose legs have been silent for a minute. -/
theorem idleFree_fails : ¬ IdleFree [7] (calls step { lastSweep := 0 }
    [.datagram { port := 1 } [1, 7] 0 0, .datagram { port := 2 } [1, 7] 0 0,
      .datagram { port := 3 } [1, 7] 20 20, .datagram { port := 3 } [1, 7] 40 40,
      .datagram { port := 3 } [1, 7] 60 60]) := by
  intro hp
  have hlast := hp (calls step { lastSweep := 0 }
    [.datagram { port := 1 } [1, 7] 0 0, .datagram { port := 2 } [1, 7] 0 0,
      .datagram { port := 3 } [1, 7] 20 20, .datagram { port := 3 } [1, 7] 40 40]) _ [] rfl
    { port := 3 } [] 60 ⟨⟨[1, 7], 60, rfl, rfl⟩, by decide +kernel, 0, by decide +kernel, by decide⟩
  exact absurd hlast.1 (by decide +kernel)

end Loop

end Redesk.Relay
