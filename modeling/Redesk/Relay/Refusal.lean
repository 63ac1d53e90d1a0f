import Redesk.Relay.Idle

/-! Datagrams that the allocation table refuses: what they change, and how long an allocation whose
legs are silent outlives them. -/
namespace Redesk.Relay
open Server Machine

namespace Allocation

variable {al al' : Allocation} {src : Endpoint} {bytes : UInt64} {now : ℤ} {self : LegName}
  {token : SessionToken}

theorem holds_iff : al.holds src = true ↔ al.a.holder = some src ∨ al.b.holder = some src := by
  simp [holds]

/-- A source finds no leg when both are bound and it holds none of them. -/
theorem legOf_eq_none : al.legOf src = none ↔
    al.a.bound = true ∧ al.b.bound = true ∧ al.holds src = false := by
  rw [← Bool.not_eq_true, holds_iff, holder_eq_some, holder_eq_some, legOf]
  by_cases ha : al.a.bound = true ∧ al.a.endpoint = src
  · simp [ha]
  by_cases hb : al.b.bound = true ∧ al.b.endpoint = src
  · simp [ha, hb]
  cases hba : al.a.bound <;> cases hbb : al.b.bound <;> simp_all

theorem bind_of_holder {leg : Leg} (h : leg.holder = some src) :
    { leg with endpoint := src, bound := true } = leg := by
  obtain ⟨hb, rfl⟩ := holder_eq_some.mp h
  rw [← hb]

/-- The leg that a source finds is its own, else the first free one, and is bound to it. -/
theorem legOf_cases (h : al.legOf src = some (self, al')) :
    (self = .a ∧ al' = { al with a := { al.a with endpoint := src, bound := true } } ∧
        (al.a.holder = some src ∨ al.a.holder = none ∧ al.b.holder ≠ some src)) ∨
      (self = .b ∧ al' = { al with b := { al.b with endpoint := src, bound := true } } ∧
        al.a.holder ≠ some src ∧ (al.b.holder = some src ∨ al.b.holder = none)) := by
  simp only [legOf, ← holder_eq_some] at h
  split at h
  · rename_i ha
    cases h
    exact .inl ⟨rfl, by rw [bind_of_holder ha], .inl ha⟩
  rename_i ha
  split at h
  · rename_i hb
    cases h
    exact .inr ⟨rfl, by rw [bind_of_holder hb], ha, .inl hb⟩
  rename_i hb
  split at h
  · rename_i hfree
    cases h
    exact .inl ⟨rfl, rfl, .inr ⟨holder_eq_none.mpr (by simpa using hfree), hb⟩⟩
  split at h
  · rename_i hfree
    cases h
    exact .inr ⟨rfl, rfl, ha, .inr (holder_eq_none.mpr (by simpa using hfree))⟩
  · cases h

theorem holds_of_legOf (h : al.legOf src = some (self, al')) : al'.holds src = true := by
  rw [holds_iff, holder_eq_some, holder_eq_some]
  rcases legOf_cases h with ⟨-, rfl, -⟩ | ⟨-, rfl, -⟩
  · exact .inl ⟨rfl, rfl⟩
  · exact .inr ⟨rfl, rfl⟩

@[simp] theorem holds_count : (al.count bytes self).holds src = al.holds src := by
  cases self <;> rfl

theorem route_of_none (h : al.legOf src = none) : al.route src bytes now =
    (.fail .permissionDenied "session legs already bound to other peers",
      { al with lastActivityUnixS := now }) := by
  have hnone : ({ al with lastActivityUnixS := now } : Allocation).legOf src = none := by
    rw [legOf_eq_none] at h ⊢
    exact h
  simp only [route, hnone]

variable (bytes now) in
/-- A source that finds a leg is counted on it. -/
theorem exists_legOf (h : al.legOf src ≠ none) : ∃ self al',
    ({ al with lastActivityUnixS := now } : Allocation).legOf src = some (self, al') ∧
      (al.route src bytes now).2 = al'.count bytes self := by
  have hsome : ({ al with lastActivityUnixS := now } : Allocation).legOf src ≠ none := by
    rw [ne_eq, legOf_eq_none] at h ⊢
    exact h
  obtain ⟨⟨self, al'⟩, hleg⟩ := Option.ne_none_iff_exists'.mp hsome
  refine ⟨self, al', hleg, ?_⟩
  simp only [route, hleg]
  split <;> rfl

variable (bytes now) in
/-- A source that finds a leg is not refused, and holds the leg from then on. -/
theorem route_of_some (h : al.legOf src ≠ none) :
    ((al.route src bytes now).1.status.code = .ok ∨
      (al.route src bytes now).1.status.code = .again) ∧
    (al.route src bytes now).2.holds src = true := by
  obtain ⟨self, al', hleg, hroute⟩ := exists_legOf bytes now h
  rw [hroute, holds_count]
  refine ⟨?_, holds_of_legOf hleg⟩
  simp only [route, hleg]
  split
  · exact .inr rfl
  · exact .inl rfl

theorem lastActivity_legOf (h : al.legOf src = some (self, al')) :
    al'.lastActivityUnixS = al.lastActivityUnixS := by
  unfold legOf at h
  split_ifs at h <;> cases h <;> rfl

@[simp] theorem lastActivity_route : (al.route src bytes now).2.lastActivityUnixS = now := by
  unfold route
  dsimp only
  split
  · rfl
  · rename_i self al' hleg
    have hnow := lastActivity_legOf hleg
    split <;> cases self <;> exact hnow

end Allocation

namespace AllocationTable
open Allocation

variable {table : AllocationTable} {h : List Call} {t : SessionToken} {op : Op} {src : Endpoint}
  {bytes : UInt64} {now : ℤ} {al : Allocation}

/-- The call is a datagram that is answered with `InvalidArgument` or `PermissionDenied`. -/
def Refused (c : Call) : Prop :=
  ∃ t src bytes now dst, c.op = .route t src bytes now ∧ c.res = .endpoint dst ∧
    (dst.status.code = .invalidArgument ∨ dst.status.code = .permissionDenied)

/-- The time of a datagram on `t` whose source holds a leg. -/
def spoke (t : SessionToken) (c : Call) : Option ℤ :=
  match c.op with
  | .route token src _ now =>
    if token = t ∧ (c.post[t]?.any (·.holds src)) = true then some now else none
  | _ => none

/-- What a refused datagram leaves alone, and what an expiry does to an allocation with both legs
bound that have been silent for more than `ttl` seconds. -/
structure RefusalClean (a : List Call) (c : Call) : Prop where
  unchanged : Refused c → c.post = c.pre
  removed : ∀ now ttl t al last, c.op = .expire now ttl → c.pre[t]? = some al →
    al.a.bound = true → al.b.bound = true → latest (spoke t) a = some last → now - last > ttl →
      c.post[t]? = none

/-- A datagram comes for an allocation with both legs bound, from a source that holds none of them,
at another time than that of its last activity. -/
def Intrudes (c : Call) : Prop :=
  ∃ t src bytes now al, c.op = .route t src bytes now ∧ c.pre[t]? = some al ∧
    al.legOf src = none ∧ now ≠ al.lastActivityUnixS

/-- An allocation that was created at time 0 is taken for a new one when both its legs are bound
already, at another time than that of its last activity. -/
def Restamps (c : Call) : Prop :=
  ∃ t now al, c.op = .allocate t now ∧ c.pre[t]? = some al ∧ al.createdUnixS = 0 ∧
    al.a.bound = true ∧ al.b.bound = true ∧ now ≠ al.lastActivityUnixS

theorem intrudes_route_iff : Intrudes (call step table (.route t src bytes now)) ↔
    ∃ al, table[t]? = some al ∧ al.legOf src = none ∧ now ≠ al.lastActivityUnixS := by
  constructor
  · rintro ⟨t', src', bytes', now', al, hop, hal, hleg, hnow⟩
    obtain ⟨rfl, rfl, rfl, rfl⟩ := Op.route.inj hop
    exact ⟨al, hal, hleg, hnow⟩
  · rintro ⟨al, hal, hleg, hnow⟩
    exact ⟨t, src, bytes, now, al, rfl, hal, hleg, hnow⟩

instance (table : AllocationTable) (op : Op) : Decidable (Intrudes (call step table op)) :=
  match op with
  | .route t src bytes now =>
    decidable_of_iff (table[t]?.any fun al =>
        decide (al.legOf src = none ∧ now ≠ al.lastActivityUnixS))
      (by rw [intrudes_route_iff]; simp [Option.any_eq_true])
  | .allocate _ _ => isFalse (by rintro ⟨_, _, _, _, _, hop, -⟩; cases hop)
  | .expire _ _ => isFalse (by rintro ⟨_, _, _, _, _, hop, -⟩; cases hop)

theorem insert_eq_self_iff {al' : Allocation} :
    table.insert t al' = table ↔ table[t]? = some al' := by
  constructor
  · intro h
    rw [← h, Std.ExtTreeMap.getElem?_insert_self]
  · intro h
    apply Std.ExtTreeMap.ext_getElem?
    intro k
    rw [Std.ExtTreeMap.getElem?_insert]
    split
    · rename_i hk
      rw [← Std.LawfulEqOrd.eq_of_compare hk, h]
    · rfl

/-- A datagram is refused for want of an allocation or of a leg. -/
theorem refused_route_iff : Refused (call step table (.route t src bytes now)) ↔
    ∀ al, table[t]? = some al → al.legOf src = none := by
  have hres : (call step table (.route t src bytes now)).res =
      .endpoint (table.route t src bytes now).1 := rfl
  cases hal : table[t]? with
  | none =>
    refine iff_of_true ⟨t, src, bytes, now, _, rfl, hres, .inl ?_⟩ (by simp)
    rw [route_fst, hal]
    rfl
  | some al =>
    simp only [Option.some_inj, forall_eq']
    by_cases hleg : al.legOf src = none
    · refine iff_of_true ⟨t, src, bytes, now, _, rfl, hres, .inr ?_⟩ hleg
      rw [route_fst, hal]
      simp only [route_of_none hleg]
      rfl
    · refine iff_of_false ?_ hleg
      rintro ⟨t', src', bytes', now', dst, -, hdst, hcode⟩
      rw [hres, route_fst, hal] at hdst
      obtain rfl := Reply.endpoint.inj hdst
      rcases (route_of_some bytes now hleg).1 with hok | hagain
      · simp [hok] at hcode
      · simp [hagain] at hcode

/-- Only datagrams are refused, and only they intrude. -/
theorem not_refused_of_ne (table : AllocationTable) (op : Op)
    (hop : ∀ t src bytes now, op ≠ .route t src bytes now) :
    ¬ Refused (call step table op) ∧ ¬ Intrudes (call step table op) := by
  constructor
  · rintro ⟨t, src, bytes, now, dst, h, -⟩
    exact hop t src bytes now h
  · rintro ⟨t, src, bytes, now, al, h, -⟩
    exact hop t src bytes now h

/-- A refused datagram changes the table just when it intrudes. -/
theorem unchanged_iff : (Refused (call step table op) → (step table op).2 = table) ↔
    ¬ Intrudes (call step table op) := by
  cases op with
  | route t src bytes now =>
    rw [refused_route_iff]
    have hpost : (step table (.route t src bytes now)).2 = (table.route t src bytes now).2 := rfl
    rw [hpost, route]
    cases hal : table[t]? with
    | none =>
      refine iff_of_true (fun _ => rfl) ?_
      rw [intrudes_route_iff, hal]
      rintro ⟨al, hal', -⟩
      cases hal'
    | some al =>
      simp only [intrudes_route_iff, hal, Option.some_inj, forall_eq', exists_eq_left', not_and,
        not_not]
      refine forall_congr' fun hleg => ?_
      rw [route_of_none hleg, insert_eq_self_iff, hal, Option.some_inj]
      constructor
      · intro heq
        rw [heq]
      · rintro rfl
        rfl
  | allocate t now =>
    obtain ⟨hr, hi⟩ := not_refused_of_ne table (.allocate t now) (by simp)
    exact iff_of_true (fun h => absurd h hr) hi
  | expire now ttl =>
    obtain ⟨hr, hi⟩ := not_refused_of_ne table (.expire now ttl) (by simp)
    exact iff_of_true (fun h => absurd h hr) hi

/-- The last activity of an allocation with both legs bound is the last datagram of a leg. -/
def Dated (h : List Call) (table : AllocationTable) : Prop :=
  ∀ t al, table[t]? = some al → al.a.bound = true → al.b.bound = true →
    latest (spoke t) h = some al.lastActivityUnixS

theorem dated_allocate {token : SessionToken} (hi : Dated h table)
    (hs : ¬ Restamps (call step table (.allocate token now))) :
    Dated (h ++ [call step table (.allocate token now)]) (step table (.allocate token now)).2 := by
  intro t al' hal' hba hbb
  have hquiet : spoke t (call step table (.allocate token now)) = none := rfl
  rw [latest_snoc, hquiet, Option.none_or]
  by_cases hne : token = []
  · exact hi t al' (by simpa [step, allocate, hne] using hal') hba hbb
  rw [step, getElem?_allocate hne] at hal'
  split at hal'
  · rename_i ht
    subst ht
    obtain rfl := Option.some.inj hal'
    rw [created_a] at hba
    rw [created_b] at hbb
    cases hal : table[token]? with
    | none =>
      rw [hal] at hba
      cases hba
    | some al =>
      rw [hal, Option.getD_some] at hba hbb
      rw [Option.getD_some, hi token al hal hba hbb]
      by_cases hzero : al.createdUnixS = 0
      · have hnow : now = al.lastActivityUnixS := by
          by_contra hne
          exact hs ⟨token, now, al, rfl, hal, hzero, hba, hbb, hne⟩
        rw [created, if_pos hzero, hnow]
      · rw [created, if_neg hzero]
  · exact hi t al' hal' hba hbb

theorem dated_route {token : SessionToken} (hi : Dated h table)
    (hq : ¬ Intrudes (call step table (.route token src bytes now))) :
    Dated (h ++ [call step table (.route token src bytes now)])
      (step table (.route token src bytes now)).2 := by
  intro t al' hal' hba hbb
  rw [latest_snoc]
  rw [step, getElem?_route] at hal'
  split at hal'
  · rename_i ht
    subst ht
    obtain ⟨al, hal, rfl⟩ := Option.map_eq_some_iff.mp hal'
    by_cases hleg : al.legOf src = none
    · -- refused in the second of the last activity
      have hnow : now = al.lastActivityUnixS := by
        by_contra hne
        exact hq ⟨token, src, bytes, now, al, rfl, hal, hleg, hne⟩
      have hsame : (al.route src bytes now).2 = al := by
        rw [route_of_none hleg, hnow]
      have hquiet : spoke token (call step table (.route token src bytes now)) = none := by
        have hno := (legOf_eq_none.mp hleg).2.2
        simp [spoke, step, getElem?_route, hal, hsame, hno]
      rw [hsame] at hba hbb ⊢
      rw [hquiet, Option.none_or]
      exact hi token al hal hba hbb
    · have hspoke : spoke token (call step table (.route token src bytes now)) = some now := by
        have hholds := (route_of_some bytes now hleg).2
        simp [spoke, step, getElem?_route, hal, hholds]
      rw [hspoke, lastActivity_route]
      rfl
  · rename_i ht
    have hquiet : spoke t (call step table (.route token src bytes now)) = none := by
      simp [spoke, ht]
    rw [hquiet, Option.none_or]
    exact hi t al' hal' hba hbb

theorem dated_step (hi : Dated h table) (hq : ¬ Intrudes (call step table op))
    (hs : ¬ Restamps (call step table op)) :
    Dated (h ++ [call step table op]) (step table op).2 := by
  cases op with
  | allocate token now => exact dated_allocate hi hs
  | route token src bytes now => exact dated_route hi hq
  | expire now ttl =>
    intro t al' hal' hba hbb
    have hquiet : spoke t (call step table (.expire now ttl)) = none := rfl
    rw [latest_snoc, hquiet, Option.none_or]
    rw [step, expire_eq_sweep, Expiry.getElem?_sweep] at hal'
    exact hi t al' (Option.eq_some_of_filter_eq_some hal') hba hbb

/-- An expiry removes what has been silent for too long. -/
theorem removed_of_dated (hi : Dated h table) {ttl last : ℤ} (hal : table[t]? = some al)
    (ha : al.a.bound = true) (hb : al.b.bound = true) (hlast : latest (spoke t) h = some last)
    (hidle : now - last > ttl) :
    (step table (.expire now ttl)).2[t]? = none := by
  rw [hi t al hal ha hb] at hlast
  obtain rfl := Option.some.inj hlast
  rw [step, expire_eq_sweep]
  exact Expiry.getElem?_sweep_of_stale hal (by simpa using hidle)

/-- In a run without intruders, in which no allocation with two legs is taken for a new one, every
refused datagram leaves the table alone and every expiry removes what its legs have left silent for
too long. An intruder is refused and yet changes the table. -/
theorem refusalClean_run (hr : Run ∅ h table) :
    (Along (fun _ c => ¬ Intrudes c ∧ ¬ Restamps c) h → Along RefusalClean h) ∧
      (Along RefusalClean h → Along (fun _ c => ¬ Intrudes c) h) := by
  constructor
  · intro hq a c b hs
    subst hs
    obtain ⟨ha, hc, -⟩ := hr.split
    have hqa : Along (fun _ c => ¬ Intrudes c ∧ ¬ Restamps c) a := by
      rintro a' d b' rfl
      exact hq a' d (b' ++ c :: b) (by simp)
    have hdated : Dated a c.pre := by
      refine ha.invariant_of_along ?_ (fun h s i _ hi hq => dated_step hi hq.1 hq.2) hqa
      intro t al hal
      simp at hal
    obtain ⟨hintrudes, -⟩ := hq a c b rfl
    rw [hc] at hintrudes ⊢
    refine ⟨unchanged_iff.mpr hintrudes, ?_⟩
    intro now ttl t al last hop hal hba hbb hlast hidle
    rw [call_op] at hop
    rw [call_post, hop]
    exact removed_of_dated hdated hal hba hbb hlast hidle
  · intro hp a c b hs
    have hclean := (hp a c b hs).unchanged
    subst hs
    obtain ⟨-, hc, -⟩ := hr.split
    rw [hc] at hclean ⊢
    exact unchanged_iff.mp hclean

/-- The third source is refused in the second in which the second leg speaks. -/
theorem refusalClean_same_second : Along RefusalClean (calls step ∅
    [.allocate [7] 1, .route [7] { port := 1 } 10 1, .route [7] { port := 2 } 10 2,
      .route [7] { port := 3 } 10 2, .expire 100 60]) := by
  refine (refusalClean_run (run_calls _ _)).1 ?_
  simp only [calls, along_cons, along_nil, and_true]
  refine ⟨⟨by decide +kernel, ?_⟩, ⟨by decide +kernel, ?_⟩, ⟨by decide +kernel, ?_⟩,
    ⟨by decide +kernel, ?_⟩, ⟨by decide +kernel, ?_⟩⟩
  · rintro ⟨t, now, al, -, hal, -⟩
    simp at hal
  all_goals
    rintro ⟨t, now, al, hop, -⟩
    cases hop

/-- A third source is refused, and yet keeps alive an allocation whose legs have been silent for 98
seconds. -/
theorem not_refusalClean_third_source : ¬ Along RefusalClean (calls step ∅
    [.allocate [7] 1, .route [7] { port := 1 } 10 1, .route [7] { port := 2 } 10 2,
      .route [7] { port := 3 } 10 50, .expire 100 60]) := by
  intro hp
  have hlast := hp (calls step ∅ [.allocate [7] 1, .route [7] { port := 1 } 10 1,
    .route [7] { port := 2 } 10 2, .route [7] { port := 3 } 10 50]) _ [] rfl
  have hlegs : ((final step ∅ [.allocate [7] 1, .route [7] { port := 1 } 10 1,
      .route [7] { port := 2 } 10 2, .route [7] { port := 3 } 10 50])[([7] : SessionToken)]?).map
        (fun al => (al.a.bound, al.b.bound)) = some (true, true) := by decide +kernel
  obtain ⟨al, hal, hbound⟩ := Option.map_eq_some_iff.mp hlegs
  obtain ⟨ha, hb⟩ := Prod.mk.inj hbound
  have hgone := hlast.removed 100 60 [7] al 2 rfl hal ha hb (by decide +kernel) (by decide)
  exact absurd hgone (by decide +kernel)

end AllocationTable

end Redesk.Relay
