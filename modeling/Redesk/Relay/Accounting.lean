import Mathlib.Data.List.DropRight
import Redesk.Relay.Refusal

/-! The byte counters of the relay against what it has forwarded while an allocation lived. -/
namespace Redesk.Relay
open Server Machine

namespace Allocation

variable {al : Allocation} {s : Seats Endpoint} {src e : Endpoint} {bytes : UInt64} {now : ℤ}
  {token : SessionToken}

/-- The counter of the leg that `e` holds. -/
def credit (al : Allocation) (e : Endpoint) : UInt64 :=
  if al.a.holder = some e then al.a.bytesForwarded
  else if al.b.holder = some e then al.b.bytesForwarded
  else 0

/-- Free legs have counted nothing. -/
def Fresh (al : Allocation) : Prop :=
  (al.a.bound = false → al.a.bytesForwarded = 0) ∧ (al.b.bound = false → al.b.bytesForwarded = 0)

/-- The counter of a leg that a source finds is the source's own from then on. -/
theorem credit_legOf {self : LegName} {al' : Allocation} (hf : al.Fresh)
    (h : al.legOf src = some (self, al')) : (al'.count bytes self).Fresh ∧
    ∀ e, (al'.count bytes self).credit e =
      if e = src then al.credit e + bytes else al.credit e := by
  rcases legOf_cases h with ⟨rfl, rfl, hleg⟩ | ⟨rfl, rfl, ha, hleg⟩
  · refine ⟨⟨(fun hb => nomatch hb), hf.2⟩, fun e => ?_⟩
    have hfree : al.a.holder = none → al.a.bytesForwarded = 0 :=
      fun hnone => hf.1 (holder_eq_none.mp hnone)
    have hself : (count { al with a := { al.a with endpoint := src, bound := true } } bytes
        .a).a.holder = some src := rfl
    by_cases he : e = src
    · subst he
      rw [if_pos rfl, credit, if_pos hself]
      rcases hleg with ha | ⟨ha, hb⟩
      · rw [credit, if_pos ha]
        rfl
      · rw [credit, ha, if_neg (by simp), if_neg hb, ← hfree ha]
        rfl
    · rw [if_neg he, credit, hself, if_neg (by simpa using Ne.symm he)]
      have ha : al.a.holder ≠ some e := by
        rcases hleg with ha | ⟨ha, -⟩
        · simpa [ha] using Ne.symm he
        · simp [ha]
      rw [credit, if_neg ha]
      rfl
  · refine ⟨⟨hf.1, (fun hb => nomatch hb)⟩, fun e => ?_⟩
    have hfree : al.b.holder = none → al.b.bytesForwarded = 0 :=
      fun hnone => hf.2 (holder_eq_none.mp hnone)
    have hself : (count { al with b := { al.b with endpoint := src, bound := true } } bytes
        .b).b.holder = some src := rfl
    have hother : (count { al with b := { al.b with endpoint := src, bound := true } } bytes
        .b).a = al.a := rfl
    rw [credit, credit, hself, hother]
    by_cases he : e = src
    · subst he
      rw [if_neg ha, if_neg ha, if_pos rfl, if_pos rfl]
      rcases hleg with hb | hb
      · rw [if_pos hb]
        rfl
      · rw [hb, if_neg (by simp), ← hfree hb]
        rfl
    · have hb : al.b.holder ≠ some e := by
        rcases hleg with hb | hb
        · simpa [hb] using Ne.symm he
        · simp [hb]
      have hne : some src ≠ some e := by simpa using Ne.symm he
      rw [if_neg he, if_neg hb, if_neg hne]

variable (src bytes now) in
/-- A datagram is added to the counter of its source when the source finds a leg. -/
theorem credit_route (hf : al.Fresh) : (al.route src bytes now).2.Fresh ∧
    ∀ e, (al.route src bytes now).2.credit e =
      if e = src ∧ al.legOf src ≠ none then al.credit e + bytes else al.credit e := by
  by_cases hleg : al.legOf src = none
  · rw [route_of_none hleg]
    refine ⟨hf, fun e => ?_⟩
    rw [if_neg (fun h => h.2 hleg)]
    rfl
  · obtain ⟨self, al', hfound, hroute⟩ := exists_legOf bytes now hleg
    have hf' : ({ al with lastActivityUnixS := now } : Allocation).Fresh := hf
    obtain ⟨hfresh, hcredit⟩ := credit_legOf hf' hfound
    rw [hroute]
    refine ⟨hfresh, fun e => (hcredit e).trans ?_⟩
    simp only [and_iff_left hleg]
    rfl

variable (src bytes now) in
/-- A source finds a leg and gets no destination just when nobody else holds a leg. -/
theorem alone_iff (hs : al.Seated s) :
    al.legOf src ≠ none ∧ (al.route src bytes now).1.status.ok = false ↔
      ∀ e, al.a.holder = some e ∨ al.b.holder = some e → e = src := by
  rw [hs.1, hs.2, ← Seats.claim_eq_one_iff, (hs.route src bytes now).2.1]
  constructor
  · rintro ⟨hleg, hok⟩
    have hagain := (route_of_some bytes now hleg).1
    rw [(hs.route src bytes now).2.1] at hagain
    rcases hagain with hcode | hcode
    · simp [Status.ok, hcode] at hok
    unfold answer at hcode
    split at hcode
    · cases hcode
    · rename_i hpartner
      split at hcode
      · rename_i hfirst
        exact Seats.eq_one_of_alone hfirst hpartner
      · cases hcode
  · intro hone
    have hanswer : answer (s.claim src) src = .fail .again "peer leg not yet bound" := by
      rw [hone]
      simp [answer, Seats.partner, Seats.first]
    refine ⟨fun hleg => ?_, by rw [hanswer]; rfl⟩
    have hdenied := (hs.route src bytes now).2.1
    rw [route_of_none hleg, hanswer] at hdenied
    cases hdenied

/-- In an allocation whose legs are two seats each counter is that of its holder. -/
theorem credit_of_leg {leg : Leg} (hs : al.Seated s) (hleg : leg = al.a ∨ leg = al.b)
    (hb : leg.bound = true) : al.credit leg.endpoint = leg.bytesForwarded := by
  rcases hleg with rfl | rfl
  · rw [credit, if_pos (holder_eq_some.mpr ⟨hb, rfl⟩)]
  · have hne : al.a.holder ≠ some al.b.endpoint := by
      intro hholder
      obtain ⟨ha, heq⟩ := holder_eq_some.mp hholder
      exact hs.distinct ha hb heq
    rw [credit, if_neg hne, if_pos (holder_eq_some.mpr ⟨hb, rfl⟩)]

theorem exists_leg_of_holds (h : al.holds src = true) : ∃ leg, (leg = al.a ∨ leg = al.b) ∧
    leg.bound = true ∧ leg.endpoint = src ∧ al.credit src = leg.bytesForwarded := by
  by_cases ha : al.a.holder = some src
  · obtain ⟨hbound, rfl⟩ := holder_eq_some.mp ha
    exact ⟨al.a, .inl rfl, hbound, rfl, if_pos ha⟩
  · have hb := (holds_iff.mp h).resolve_left ha
    obtain ⟨hbound, hend⟩ := holder_eq_some.mp hb
    refine ⟨al.b, .inr rfl, hbound, hend, ?_⟩
    rw [credit, if_neg ha, if_pos hb]

end Allocation

namespace AllocationTable
open Allocation

variable {table : AllocationTable} {h : List Call} {t : SessionToken} {op : Op}
  {src e : Endpoint} {bytes : UInt64} {now : ℤ} {al : Allocation} {c : Call}

/-- The calls since the allocation of `t` was made. -/
def lifetime (t : SessionToken) (h : List Call) : List Call :=
  h.rtakeWhile fun c => (c.post[t]?).isSome

/-- The bytes of a datagram on `t` from `e` that gets a destination. -/
def delivered (t : SessionToken) (e : Endpoint) (c : Call) : ℕ :=
  match c.op, c.res with
  | .route token src bytes _, .endpoint dst =>
    if token = t ∧ src = e ∧ dst.status.ok = true then bytes.toNat else 0
  | _, _ => 0

/-- The bytes that were forwarded for `e` during the allocation of `t`. -/
def forwarded (t : SessionToken) (e : Endpoint) (h : List Call) : ℕ :=
  ((lifetime t h).map (delivered t e)).sum

/-- The counter of every bound leg is what was forwarded for it. -/
def Accounted (h : List Call) (table : AllocationTable) : Prop :=
  ∀ t al, table[t]? = some al → ∀ leg, leg = al.a ∨ leg = al.b → leg.bound = true →
    leg.bytesForwarded.toNat = forwarded t leg.endpoint h % 2 ^ 64

/-- A datagram that is not empty comes from a source that nobody else shares the allocation
with. -/
def Early (c : Call) : Prop :=
  ∃ t src bytes now al, c.op = .route t src bytes now ∧ c.pre[t]? = some al ∧
    (∀ e, al.a.holder = some e ∨ al.b.holder = some e → e = src) ∧ bytes ≠ 0

theorem forwarded_snoc (hlives : c.post[t]? ≠ none) :
    forwarded t e (h ++ [c]) = forwarded t e h + delivered t e c := by
  have hsome : (c.post[t]?).isSome = true := Option.isSome_iff_ne_none.mpr hlives
  have hlife : lifetime t (h ++ [c]) = lifetime t h ++ [c] :=
    List.rtakeWhile_concat_pos _ _ _ hsome
  simp [forwarded, hlife]

/-- Before an allocation is made nothing is forwarded for it. -/
theorem forwarded_of_none (hr : Run ∅ h table) (hn : table[t]? = none) : forwarded t e h = 0 := by
  cases hr with
  | nil => rfl
  | @snoc h table hr op =>
    have hnone : ((call step table op).post[t]?).isSome ≠ true := by simp [hn]
    have hlife : lifetime t (h ++ [call step table op]) = [] :=
      List.rtakeWhile_concat_neg _ _ _ hnone
    simp [forwarded, hlife]

/-- The counters of the allocation of `t` are right for everyone. -/
def Balanced (t : SessionToken) (h : List Call) (table : AllocationTable) : Prop :=
  ∀ al, table[t]? = some al → al.Fresh ∧
    ∀ e, (al.credit e).toNat = forwarded t e h % 2 ^ 64

theorem balanced_nil : Balanced t [] ∅ := by
  intro al hal
  simp at hal

theorem delivered_eq_zero (hop : ∀ src bytes now, op ≠ .route t src bytes now) :
    delivered t e (call step table op) = 0 := by
  cases op with
  | route token src bytes now =>
    have hne : token ≠ t := by
      rintro rfl
      exact hop src bytes now rfl
    simp [delivered, step, hne]
  | _ => rfl

theorem delivered_route (hal : table[t]? = some al) :
    delivered t e (call step table (.route t src bytes now)) =
      if e = src ∧ (al.route src bytes now).1.status.ok = true then bytes.toNat else 0 := by
  have hres : (call step table (.route t src bytes now)).res =
      .endpoint (al.route src bytes now).1 := by
    rw [call_res, step, route_fst, hal]
  simp only [delivered, call_op, hres, true_and, eq_comm]

theorem early_route_iff : Early (call step table (.route t src bytes now)) ↔
    ∃ al, table[t]? = some al ∧ (∀ e, al.a.holder = some e ∨ al.b.holder = some e → e = src) ∧
      bytes ≠ 0 := by
  constructor
  · rintro ⟨t', src', bytes', now', al, hop, hal, halone, hne⟩
    obtain ⟨rfl, rfl, rfl, rfl⟩ := Op.route.inj hop
    exact ⟨al, hal, halone, hne⟩
  · rintro ⟨al, hal, halone, hne⟩
    exact ⟨t, src, bytes, now, al, rfl, hal, halone, hne⟩

/-- A datagram that is counted is forwarded, unless it is early. -/
theorem balanced_route (hr : Run ∅ h table) (hi : Balanced t h table)
    (hq : ¬ Early (call step table (.route t src bytes now))) :
    Balanced t (h ++ [call step table (.route t src bytes now)])
      (step table (.route t src bytes now)).2 := by
  intro al' hal'
  have hlives : (call step table (.route t src bytes now)).post[t]? ≠ none := by simp [hal']
  rw [step, getElem?_route, if_pos rfl] at hal'
  obtain ⟨al, hal, rfl⟩ := Option.map_eq_some_iff.mp hal'
  obtain ⟨s, hs, -⟩ := known_run hr al hal
  obtain ⟨hfresh, hcredit⟩ := hi al hal
  obtain ⟨hfresh', hcredit'⟩ := credit_route src bytes now hfresh
  refine ⟨hfresh', fun e => ?_⟩
  rw [hcredit', forwarded_snoc hlives, delivered_route hal]
  have hsum := hcredit e
  by_cases he : e = src
  · by_cases hok : (al.route src bytes now).1.status.ok = true
    · have hleg : al.legOf src ≠ none := by
        intro hleg
        rw [route_of_none hleg] at hok
        cases hok
      rw [if_pos ⟨he, hleg⟩, if_pos ⟨he, hok⟩, UInt64.toNat_add, hsum, Nat.mod_add_mod]
    · have hdropped : ¬ (e = src ∧ (al.route src bytes now).1.status.ok = true) :=
        fun h => hok h.2
      rw [if_neg hdropped, Nat.add_zero]
      split
      · rename_i hleg
        have hnone : bytes = 0 := by
          by_contra hne
          refine hq (early_route_iff.mpr ⟨al, hal, ?_, hne⟩)
          exact (alone_iff src bytes now hs).mp ⟨hleg.2, Bool.not_eq_true _ ▸ hok⟩
        rw [hnone, UInt64.add_zero, hsum]
      · exact hsum
  · rw [if_neg (fun h => he h.1), if_neg (fun h => he h.1), Nat.add_zero, hsum]

theorem balanced_step (hr : Run ∅ h table) (hi : Balanced t h table)
    (hq : ¬ Early (call step table op)) :
    Balanced t (h ++ [call step table op]) (step table op).2 := by
  by_cases hop : ∃ src bytes now, op = .route t src bytes now
  · obtain ⟨src, bytes, now, rfl⟩ := hop
    exact balanced_route hr hi hq
  intro al' hal'
  have hquiet : ∀ e, forwarded t e (h ++ [call step table op]) = forwarded t e h := by
    intro e
    have hlives : (call step table op).post[t]? ≠ none := by simp [hal']
    have hzero : delivered t e (call step table op) = 0 :=
      delivered_eq_zero fun src bytes now h => hop ⟨src, bytes, now, h⟩
    rw [forwarded_snoc hlives, hzero, Nat.add_zero]
  simp only [hquiet]
  rcases step_cases hal' with hal | ⟨now, -, rfl⟩ | ⟨src, bytes, now, al, h, -, -⟩
  · exact hi al' hal
  · cases hal : table[t]? with
    | none =>
      refine ⟨by simp [Fresh], fun e => ?_⟩
      rw [forwarded_of_none hr hal]
      simp [credit, Leg.holder]
    | some al => simpa [Fresh, credit] using hi al hal
  · exact absurd ⟨src, bytes, now, h⟩ hop

theorem accounted_of_balanced (hr : Run ∅ h table) (hi : ∀ t, Balanced t h table) :
    Accounted h table := by
  intro t al hal leg hleg hb
  obtain ⟨s, hs, -⟩ := known_run hr al hal
  rw [← credit_of_leg hs hleg hb]
  exact (hi t al hal).2 leg.endpoint

/-- An early datagram is counted and not forwarded. -/
theorem not_early_of_accounted (hr : Run ∅ h table) (hi : ∀ t, Balanced t h table)
    (hp : Accounted (h ++ [call step table op]) (step table op).2) :
    ¬ Early (call step table op) := by
  rintro ⟨t, src, bytes, now, al, hop, hal, halone, hne⟩
  rw [call_op] at hop
  subst hop
  rw [call_pre] at hal
  obtain ⟨s, hs, -⟩ := known_run hr al hal
  obtain ⟨hfresh, hcredit⟩ := hi t al hal
  obtain ⟨-, hcredit'⟩ := credit_route src bytes now hfresh
  obtain ⟨hleg, hok⟩ := (alone_iff src bytes now hs).mpr halone
  have hal' : (step table (.route t src bytes now)).2[t]? = some (al.route src bytes now).2 := by
    rw [step, getElem?_route, if_pos rfl, hal]
    rfl
  obtain ⟨leg, hmem, hbound, hend, hcount⟩ :=
    exists_leg_of_holds (route_of_some bytes now hleg).2
  have hsum := hp t _ hal' leg hmem hbound
  have hlives : (call step table (.route t src bytes now)).post[t]? ≠ none := by simp [hal']
  have hdropped : ¬ (src = src ∧ (al.route src bytes now).1.status.ok = true) := by simp [hok]
  rw [hend, ← hcount, hcredit', if_pos ⟨rfl, hleg⟩, forwarded_snoc hlives, delivered_route hal,
    if_neg hdropped, Nat.add_zero, ← hcredit src] at hsum
  have hzero := UInt64.toNat_inj.mp hsum
  exact hne (by simpa using hzero)

/-- In a run every counter is what was forwarded for its leg just when no datagram that is not empty
comes from a source that is alone in its allocation. -/
theorem accounted_iff (hr : Run ∅ h table) :
    Along (fun a c => Accounted (a ++ [c]) c.post) h ↔ Along (fun _ c => ¬ Early c) h := by
  apply hr.along_iff (I := fun h table => ∀ t, Balanced t h table)
  · exact fun t => balanced_nil
  · intro h table op hr hi hq t
    exact balanced_step hr (hi t) hq
  · intro h table op hr hi
    constructor
    · exact not_early_of_accounted hr hi
    · intro hq
      exact accounted_of_balanced (hr.snoc op) fun t => balanced_step hr (hi t) hq

instance (table : AllocationTable) (op : Op) : Decidable (Early (call step table op)) :=
  match op with
  | .route t src bytes now =>
    decidable_of_iff (table[t]?.any fun al =>
        al.a.holder.all (· = src) && al.b.holder.all (· = src) && decide (bytes ≠ 0))
      (by
        rw [early_route_iff]
        simp [Option.any_eq_true, Option.all_eq_true, or_imp, forall_and, and_assoc])
  | .allocate _ _ => isFalse (by rintro ⟨_, _, _, _, _, hop, -⟩; cases hop)
  | .expire _ _ => isFalse (by rintro ⟨_, _, _, _, _, hop, -⟩; cases hop)

theorem accounted_empty_first : Along (fun a c => Accounted (a ++ [c]) c.post) (calls step ∅
    [.allocate [7] 1, .route [7] { port := 1 } 0 1, .route [7] { port := 2 } 10 1,
      .route [7] { port := 1 } 20 2]) := by
  refine (accounted_iff (run_calls _ _)).mpr ?_
  simp only [calls, along_cons, along_nil, and_true]
  refine ⟨?_, ?_, ?_, ?_⟩ <;> decide +kernel

/-- The first datagram of a session is dropped, and counted as forwarded. -/
theorem not_accounted_first : ¬ Along (fun a c => Accounted (a ++ [c]) c.post) (calls step ∅
    [.allocate [7] 1, .route [7] { port := 1 } 10 1]) := by
  intro hp
  have hlast := hp (calls step ∅ [.allocate [7] 1]) _ [] rfl
  have hbalanced (t : SessionToken) : Balanced t (calls step ∅ [.allocate [7] 1])
      (final step ∅ [.allocate [7] 1]) := balanced_step .nil balanced_nil (by decide +kernel)
  exact not_early_of_accounted (run_calls _ _) hbalanced hlast (by decide +kernel)

end AllocationTable

end Redesk.Relay
