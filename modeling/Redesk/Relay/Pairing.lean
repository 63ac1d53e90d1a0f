import Redesk.Relay.AllocationTable
import Redesk.Machine.Past

/-! The two legs of an allocation are two seats: who holds one, and who is paired with whom, as long
as the allocation lives. -/
namespace Redesk.Relay
open Server Machine

/-- The endpoint that a leg is bound to. -/
def Leg.holder (leg : Leg) : Option Endpoint := if leg.bound then some leg.endpoint else none

namespace Allocation

variable {al : Allocation} {s : Seats Endpoint} {src : Endpoint} {bytes : UInt64} {now : ℤ}
  {token : SessionToken}

/-- The legs of `al` are the seats `s`. -/
def Seated (al : Allocation) (s : Seats Endpoint) : Prop :=
  al.a.holder = s.first ∧ al.b.holder = s.second

/-- What the seats say to a datagram from `src`. -/
def answer (s : Seats Endpoint) (src : Endpoint) : Result Endpoint :=
  match s.partner src with
  | some dst => .good dst
  | none =>
    if s.first = some src then .fail .again "peer leg not yet bound"
    else .fail .permissionDenied "session legs already bound to other peers"

theorem holder_eq_none {leg : Leg} : leg.holder = none ↔ leg.bound = false := by
  cases h : leg.bound <;> simp [Leg.holder, h]

theorem holder_eq_some {leg : Leg} {e : Endpoint} :
    leg.holder = some e ↔ leg.bound = true ∧ leg.endpoint = e := by
  cases h : leg.bound <;> simp [Leg.holder, h]

theorem seated_default : ({} : Allocation).Seated .empty := ⟨rfl, rfl⟩

theorem Seated.ordered (hs : al.Seated s) (hb : al.b.bound = true) : al.a.bound = true := by
  have hsecond : s.second.isSome := by
    rw [← hs.2]
    simp [Leg.holder, hb]
  have hfirst := Seats.second_isSome hsecond
  rw [← hs.1] at hfirst
  by_contra hbound
  simp [Leg.holder, hbound] at hfirst

theorem Seated.distinct (hs : al.Seated s) (ha : al.a.bound = true) (hb : al.b.bound = true) :
    al.a.endpoint ≠ al.b.endpoint :=
  Seats.first_ne_second (hs.1 ▸ holder_eq_some.mpr ⟨ha, rfl⟩)
    (hs.2 ▸ holder_eq_some.mpr ⟨hb, rfl⟩)

variable (token now) in
theorem Seated.created (hs : al.Seated s) : (al.created token now).Seated s := by
  rw [Seated, created_a, created_b]
  exact hs

variable (src bytes now) in
/-- A datagram claims a seat for its source and is answered by the seats. -/
theorem Seated.route (hs : al.Seated s) :
    (al.route src bytes now).2.Seated (s.claim src) ∧
      (al.route src bytes now).1 = answer (s.claim src) src ∧
      (al.route src bytes now).2.lastActivityUnixS = now := by
  obtain ⟨ha, hb⟩ := hs
  cases s with
  | empty =>
    rw [Seats.first, holder_eq_none] at ha
    rw [Seats.second, holder_eq_none] at hb
    simp [Allocation.route, legOf, count, peer, ha, hb, Seated, Leg.holder, Seats.claim, answer,
      Seats.first, Seats.second, Seats.partner]
  | one x =>
    rw [Seats.first, holder_eq_some] at ha
    rw [Seats.second, holder_eq_none] at hb
    obtain ⟨ha, rfl⟩ := ha
    by_cases hx : al.a.endpoint = src
    · simp [Allocation.route, legOf, count, peer, ha, hb, hx, Seated, Leg.holder, Seats.claim,
        answer, Seats.first, Seats.second, Seats.partner]
    · simp [Allocation.route, legOf, count, peer, ha, hb, hx, Seated, Leg.holder, Seats.claim,
        answer, Seats.first, Seats.second, Seats.partner, Ne.symm hx]
  | two x y h =>
    rw [Seats.first, holder_eq_some] at ha
    rw [Seats.second, holder_eq_some] at hb
    obtain ⟨ha, rfl⟩ := ha
    obtain ⟨hb, rfl⟩ := hb
    by_cases hx : al.a.endpoint = src
    · simp [Allocation.route, legOf, count, peer, ha, hb, hx, Seated, Leg.holder, Seats.claim,
        answer, Seats.first, Seats.second, Seats.partner]
    · by_cases hy : al.b.endpoint = src
      · simp [Allocation.route, legOf, count, peer, ha, hb, hx, hy, Seated, Leg.holder,
          Seats.claim, answer, Seats.first, Seats.second, Seats.partner, Ne.symm hx]
      · simp [Allocation.route, legOf, ha, hb, hx, hy, Seated, Leg.holder, Seats.claim, answer,
          Seats.first, Seats.second, Seats.partner, Ne.symm hx, Ne.symm hy]

theorem answer_ok {dst : Result Endpoint} (h : dst = answer s src) (hok : dst.status.ok = true) :
    s.partner src = some dst.value := by
  subst h
  unfold answer at hok ⊢
  cases hp : s.partner src with
  | some dst => rfl
  | none =>
    by_cases hf : s.first = some src <;> simp [hp, hf, Result.fail, Status.error, Status.ok] at hok

/-- What is sent on for an answer. -/
theorem answer_out {δ : Type} (d : δ) :
    (if (answer s src).status.ok then some ((answer s src).value, d) else none) =
      (s.partner src).map (·, d) := by
  cases hp : s.partner src with
  | some dst => simp [answer, hp, Result.good, Status.success, Status.ok]
  | none =>
    by_cases hf : s.first = some src <;>
      simp [answer, hp, hf, Result.fail, Status.error, Status.ok]

theorem answer_of_partner {dst : Endpoint} (h : s.partner src = some dst) :
    answer s src = .good dst := by
  rw [answer, h]

end Allocation

namespace AllocationTable
open Allocation

abbrev Call := Machine.Call AllocationTable Op Reply

abbrev Run : AllocationTable → List Call → AllocationTable → Prop := Machine.Run step

variable {table table₀ : AllocationTable} {h : List Call} {t : SessionToken} {op : Op}
  {al al' : Allocation} {s : Seats Endpoint} {x y : Endpoint}

/-- Every way in which the allocation of `t` can come out of an operation. -/
theorem step_cases (h : (table.step op).2[t]? = some al') : table[t]? = some al' ∨
    (∃ now, op = .allocate t now ∧ al' = (table[t]?.getD {}).created t now) ∨
    ∃ src bytes now al, op = .route t src bytes now ∧ table[t]? = some al ∧
      al' = (al.route src bytes now).2 := by
  cases op with
  | allocate token now =>
    by_cases hne : token = []
    · exact .inl (by simpa [step, allocate, hne] using h)
    · rw [step, getElem?_allocate hne] at h
      split at h
      · rename_i ht
        subst ht
        exact .inr (.inl ⟨now, rfl, (Option.some.inj h).symm⟩)
      · exact .inl h
  | route token src bytes now =>
    rw [step, getElem?_route] at h
    split at h
    · rename_i ht
      subst ht
      obtain ⟨al, hal, rfl⟩ := Option.map_eq_some_iff.mp h
      exact .inr (.inr ⟨src, bytes, now, al, rfl, hal, rfl⟩)
    · exact .inl h
  | expire now ttl =>
    rw [step, expire_eq_sweep, Expiry.getElem?_sweep] at h
    exact .inl (Option.eq_some_of_filter_eq_some h)

/-- The allocation of `t` does not live after the call. -/
def gone (t : SessionToken) (c : Call) : Prop := c.post[t]? = none

/-- The allocation of `t` gets a datagram from `x`. -/
def visits (t : SessionToken) (x : Endpoint) (c : Call) : Prop :=
  c.pre[t]? ≠ none ∧ ∃ bytes now, c.op = .route t x bytes now

/-- Everyone who holds a seat has sent a datagram while the allocation lives. -/
def Known (t : SessionToken) (h : List Call) (table : AllocationTable) : Prop :=
  ∀ al, table[t]? = some al → ∃ s, al.Seated s ∧
    ∀ x, s.first = some x ∨ s.second = some x → Since (visits t x) (gone t) h

theorem known_step (hi : Known t h table) :
    Known t (h ++ [call step table op]) (table.step op).2 := by
  intro al' hal'
  have hlives : ¬ gone t (call step table op) := by simp [gone, hal']
  rcases step_cases hal' with hal | ⟨now, -, rfl⟩ | ⟨src, bytes, now, al, rfl, hal, rfl⟩
  · obtain ⟨s, hs, hv⟩ := hi al' hal
    exact ⟨s, hs, fun x hx => since_snoc.mpr (.inr ⟨hlives, hv x hx⟩)⟩
  · cases hal : table[t]? with
    | none =>
      refine ⟨.empty, seated_default.created now t, ?_⟩
      rintro x (hx | hx) <;> cases hx
    | some al =>
      obtain ⟨s, hs, hv⟩ := hi al hal
      exact ⟨s, hs.created now t, fun x hx => since_snoc.mpr (.inr ⟨hlives, hv x hx⟩)⟩
  · obtain ⟨s, hs, hv⟩ := hi al hal
    refine ⟨s.claim src, (hs.route src bytes now).1, ?_⟩
    intro x hx
    rcases Seats.seated_of_claim hx with hx | rfl
    · exact since_snoc.mpr (.inr ⟨hlives, hv x hx⟩)
    · exact since_snoc.mpr (.inl ⟨by simp [hal], bytes, now, rfl⟩)

theorem known_run (hr : Run ∅ h table) : Known t h table := by
  induction hr with
  | nil => intro al hal; simp at hal
  | snoc hr op ih => exact known_step ih

/-- As long as the allocation lives, its seats stay taken by those who took them. -/
theorem seats_stay (hr : Run table₀ h table) (hal : table₀[t]? = some al) (hs : al.Seated s)
    (hlives : ∀ c ∈ h, ¬ gone t c) : ∃ al' s', table[t]? = some al' ∧ al'.Seated s' ∧
      (∀ x, s.first = some x → s'.first = some x) ∧
      ∀ x, s.second = some x → s'.second = some x := by
  refine (hr.keeps (R := fun table => ∃ al' s', table[t]? = some al' ∧ al'.Seated s' ∧
    (∀ x, s.first = some x → s'.first = some x) ∧ ∀ x, s.second = some x → s'.second = some x)
    ⟨al, s, hal, hs, fun _ hx => hx, fun _ hx => hx⟩ ?_).1
  rintro c hc ⟨al, s', hal, hs', hfirst, hsecond⟩
  have hcall := hr.call_of_mem hc
  obtain ⟨al', hal'⟩ := Option.ne_none_iff_exists'.mp (hlives c hc)
  rw [hcall, call_post] at hal' ⊢
  rcases step_cases hal' with hsame | ⟨now, -, rfl⟩ | ⟨src, bytes, now, al₁, -, hal₁, rfl⟩
  · rw [hal] at hsame
    obtain rfl := Option.some.inj hsame
    exact ⟨_, s', hal', hs', hfirst, hsecond⟩
  · rw [hal] at hal'
    exact ⟨_, s', hal', hs'.created now t, hfirst, hsecond⟩
  · rw [hal] at hal₁
    obtain rfl := Option.some.inj hal₁
    exact ⟨_, s'.claim src, hal', (hs'.route src bytes now).1,
      fun x hx => Seats.first_claim (hfirst x hx),
      fun x hx => Seats.second_claim (hsecond x hx)⟩

/-- A leg that is bound stays bound to the same endpoint as long as the allocation lives. -/
theorem legs_stay (hr : Run table₀ h table) (hal : table₀[t]? = some al) (hs : al.Seated s)
    (hlives : ∀ c ∈ h, ¬ gone t c) (hal' : table[t]? = some al') :
    (al.a.bound = true → al'.a.bound = true ∧ al'.a.endpoint = al.a.endpoint) ∧
      (al.b.bound = true → al'.b.bound = true ∧ al'.b.endpoint = al.b.endpoint) := by
  obtain ⟨al₁, s', hal₁, ⟨ha', hb'⟩, hfirst, hsecond⟩ := seats_stay hr hal hs hlives
  rw [hal'] at hal₁
  obtain rfl := Option.some.inj hal₁
  obtain ⟨ha, hb⟩ := hs
  constructor
  · intro hbound
    exact holder_eq_some.mp (ha'.trans (hfirst _ (ha ▸ holder_eq_some.mpr ⟨hbound, rfl⟩)))
  · intro hbound
    exact holder_eq_some.mp (hb'.trans (hsecond _ (hb ▸ holder_eq_some.mpr ⟨hbound, rfl⟩)))

/-- A datagram from `x` is to be forwarded to `y`. -/
def pairs (t : SessionToken) (x y : Endpoint) (c : Call) : Prop :=
  ∃ bytes now dst, c.op = .route t x bytes now ∧ c.res = .endpoint dst ∧ dst.status.ok = true ∧
    dst.value = y

/-- An operation on another token. -/
def elsewhere (t : SessionToken) : Op → Prop
  | .allocate token _ | .route token _ _ _ => token ≠ t
  | .expire _ _ => False

/-- How the allocation of `t` pairs endpoints over the calls `h`, which end in `table`. -/
structure Pairing (t : SessionToken) (h : List Call) (table : AllocationTable) : Prop where
  ordered : ∀ al, table[t]? = some al → al.b.bound = true → al.a.bound = true
  distinct : ∀ al, table[t]? = some al → al.a.bound = true → al.b.bound = true →
    al.a.endpoint ≠ al.b.endpoint
  fixed : ∀ a c b, h = a ++ c :: b → (∀ d ∈ b, ¬ gone t d) → ∀ al al', c.post[t]? = some al →
    table[t]? = some al' →
      (al.a.bound = true → al'.a.bound = true ∧ al'.a.endpoint = al.a.endpoint) ∧
      (al.b.bound = true → al'.b.bound = true ∧ al'.b.endpoint = al.b.endpoint)
  routed : Along (fun a c => ∀ x y, pairs t x y c → y ≠ x ∧ Since (visits t y) (gone t) a ∧
    ∃ al, c.post[t]? = some al ∧ ((al.a.holder = some x ∧ al.b.holder = some y) ∨
      (al.a.holder = some y ∧ al.b.holder = some x))) h
  symmetric : ∀ x y, Since (pairs t x y) (gone t) h →
    ∀ bytes now, (table.route t y bytes now).1 = .good x
  others : ∀ c ∈ h, elsewhere t c.op → c.post[t]? = c.pre[t]?

theorem getElem?_step_of_elsewhere (he : elsewhere t op) : (table.step op).2[t]? = table[t]? := by
  cases op with
  | allocate token now =>
    by_cases hne : token = []
    · simp [step, allocate, hne]
    · rw [step, getElem?_allocate hne, if_neg he]
  | route token src bytes now => rw [step, getElem?_route, if_neg he]
  | expire now ttl => exact he.elim

/-- What a datagram that is forwarded says about the seats. -/
theorem pairs_step (hi : Known t h table) (hp : pairs t x y (call step table op)) :
    ∃ al s, table[t]? = some al ∧ al.Seated s ∧ (s.claim x).partner x = some y ∧
      (∀ z, s.first = some z ∨ s.second = some z → Since (visits t z) (gone t) h) ∧
      ∃ al', (table.step op).2[t]? = some al' ∧ al'.Seated (s.claim x) := by
  obtain ⟨bytes, now, dst, hop, hres, hok, rfl⟩ := hp
  rw [call_op] at hop
  subst hop
  have hres : (table.route t x bytes now).1 = dst := Reply.endpoint.inj hres
  rw [route_fst] at hres
  cases hal : table[t]? with
  | none =>
    rw [hal] at hres
    subst hres
    cases hok
  | some al =>
    obtain ⟨s, hs, hv⟩ := hi al hal
    rw [hal] at hres
    refine ⟨al, s, rfl, hs, answer_ok (hres.symm.trans (hs.route x bytes now).2.1) hok, hv, ?_⟩
    refine ⟨(al.route x bytes now).2, ?_, (hs.route x bytes now).1⟩
    rw [step, getElem?_route, if_pos rfl, hal]
    rfl

theorem pairing (hr : Run ∅ h table) : Pairing t h table := by
  constructor
  · intro al hal
    obtain ⟨s, hs, -⟩ := known_run hr al hal
    exact hs.ordered
  · intro al hal
    obtain ⟨s, hs, -⟩ := known_run hr al hal
    exact hs.distinct
  · rintro a c b rfl hlives al al' hal hal'
    obtain ⟨ha, hc, hb⟩ := hr.split
    have hpost : Run ∅ (a ++ [c]) c.post := by
      rw [hc]
      exact ha.snoc c.op
    obtain ⟨s, hs, -⟩ := known_run hpost al hal
    exact legs_stay hb hal hs hlives hal'
  · rintro a c b rfl x y hp
    obtain ⟨ha, hc, -⟩ := hr.split
    rw [hc] at hp ⊢
    obtain ⟨al, s, hal, hs, hpartner, hv, al', hal', hsa, hsb⟩ := pairs_step (known_run ha) hp
    refine ⟨Seats.partner_ne hpartner, ?_, al', hal', ?_⟩
    · apply hv
      have hseated : (s.claim x).first = some y ∨ (s.claim x).second = some y := by
        rcases Seats.partner_eq_some.mp hpartner with ⟨-, hy⟩ | ⟨hy, -⟩
        · exact .inr hy
        · exact .inl hy
      exact (Seats.seated_of_claim hseated).resolve_right (Seats.partner_ne hpartner)
    · rw [hsa, hsb]
      exact Seats.partner_eq_some.mp hpartner
  · rintro x y ⟨a, c, b, rfl, hp, hlives⟩ bytes now
    obtain ⟨ha, hc, hb⟩ := hr.split
    rw [hc] at hp
    obtain ⟨al, s, hal, hs, hpartner, hv, al', hal', hs'⟩ := pairs_step (known_run ha) hp
    rw [← call_post c.pre c.op, ← hc] at hal'
    obtain ⟨al₁, s', hal₁, hs₁, hfirst, hsecond⟩ := seats_stay hb hal' hs' hlives
    have hpaired : s'.partner x = some y := by
      rw [Seats.partner_eq_some] at hpartner ⊢
      exact hpartner.imp (fun h => ⟨hfirst _ h.1, hsecond _ h.2⟩)
        (fun h => ⟨hfirst _ h.1, hsecond _ h.2⟩)
    rw [route_fst, hal₁]
    exact (hs₁.route y bytes now).2.1.trans
      (answer_of_partner (Seats.partner_claim (Seats.partner_symm hpaired)))
  · intro c hc he
    rw [hr.call_of_mem hc]
    exact getElem?_step_of_elsewhere he

theorem pairing_two_legs : Pairing [7]
    (calls step ∅ [.allocate [7] 0, .route [7] { port := 1 } 10 0, .route [7] { port := 2 } 10 5])
    (final step ∅
      [.allocate [7] 0, .route [7] { port := 1 } 10 0, .route [7] { port := 2 } 10 5]) :=
  pairing (run_calls _ _)

end AllocationTable

end Redesk.Relay
