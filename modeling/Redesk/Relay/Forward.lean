import Redesk.Relay.Pairing

/-! The forward loop of the relay: what it sends on for one token is the post between two seats. -/
namespace Redesk.Relay
open Server Machine

def kSessionTtlSeconds : ℤ := 30

def kExpirySweepSeconds : ℤ := 10

/-- Parses `[u8 token_len][token][payload...]`. -/
def parseDatagram : Bytes → Option (SessionToken × Bytes)
  | [] => none
  | tlen :: rest =>
    if tlen = 0 ∨ rest.length < tlen.toNat then none
    else some (rest.take tlen.toNat, rest.drop tlen.toNat)

/-- The payload for the peer, wrapped with the same token. -/
def wrap (token : SessionToken) (payload : Bytes) : Bytes :=
  UInt8.ofNat token.length :: (token ++ payload)

/-- Taking the payload out and wrapping it again gives the datagram back. -/
theorem wrap_of_parse {data payload : Bytes} {token : SessionToken}
    (h : parseDatagram data = some (token, payload)) : wrap token payload = data ∧ token ≠ [] := by
  cases data with
  | nil => cases h
  | cons tlen rest =>
    rw [parseDatagram] at h
    split at h
    · cases h
    · rename_i hfit
      simp only [not_or, not_lt] at hfit
      simp only [Option.some_inj, Prod.mk.injEq] at h
      obtain ⟨rfl, rfl⟩ := h
      have hlen : (rest.take tlen.toNat).length = tlen.toNat := by
        rw [List.length_take, Nat.min_eq_left hfit.2]
      constructor
      · rw [wrap, hlen, List.take_append_drop]
        simp
      · intro hnil
        rw [hnil] at hlen
        exact hfit.1 (UInt8.toNat_inj.mp hlen.symm)

/-- The relay between two rounds of its loop. -/
structure Loop where
  table : AllocationTable := ∅
  lastSweep : ℤ

namespace Loop

/-- The datagram that goes out, and the table. -/
def handle (table : AllocationTable) (src : Endpoint) (data : Bytes) (now : ℤ) :
    Option (Endpoint × Bytes) × AllocationTable :=
  match parseDatagram data with
  | none => (none, table)
  | some (token, payload) =>
    let table := (table.allocate token now).2
    let (dst, table) := table.route token src (UInt64.ofNat payload.length) now
    (if dst.status.ok then some (dst.value, wrap token payload) else none, table)

def sweep (r : Loop) (now : ℤ) : Loop :=
  if now - r.lastSweep ≥ kExpirySweepSeconds then
    { table := (r.table.expire now kSessionTtlSeconds).2, lastSweep := now }
  else r

def step (r : Loop) : Event → Option (Endpoint × Bytes) × Loop
  | .datagram src data now sweepNow =>
    let (out, table) := handle r.table src data now
    (out, { r with table := table }.sweep sweepNow)
  | .nothing sweepNow => (none, r.sweep sweepNow)

abbrev Call := Machine.Call Loop Event (Option (Endpoint × Bytes))

abbrev Run : Loop → List Call → Loop → Prop := Machine.Run step

variable {r r₀ : Loop} {table : AllocationTable} {h : List Call} {t token : SessionToken}
  {e : Event} {src : Endpoint} {data payload : Bytes} {now sweepNow : ℤ} {s : Seats Endpoint}

/-- The seats of the allocation of `t`, all free when there is none. -/
def SeatedAt (table : AllocationTable) (t : SessionToken) (s : Seats Endpoint) : Prop :=
  (table[t]?.getD {}).Seated s

theorem handle_of_none (hp : parseDatagram data = none) :
    handle table src data now = (none, table) := by
  rw [handle, hp]

/-- What a datagram does to the entry of each token: it goes through the allocation of its own. -/
theorem handle_of_some (hp : parseDatagram data = some (token, payload)) :
    (handle table src data now).1 =
      (let dst := (((table[token]?.getD {}).created token now).route src
        (UInt64.ofNat payload.length) now).1
      if dst.status.ok then some (dst.value, data) else none) ∧
    ∀ t, (handle table src data now).2[t]? = if token = t then
      some (((table[token]?.getD {}).created token now).route src
        (UInt64.ofNat payload.length) now).2 else table[t]? := by
  obtain ⟨hwrap, hne⟩ := wrap_of_parse hp
  rw [handle, hp, hwrap.symm]
  constructor
  · simp [AllocationTable.route_fst, AllocationTable.getElem?_allocate hne]
  · intro t
    simp only [AllocationTable.getElem?_route, AllocationTable.getElem?_allocate hne]
    by_cases ht : token = t <;> simp [ht]

variable (src now) in
/-- A datagram claims a seat for its source; what goes out goes to the other seat, unchanged. -/
theorem handle_seated (hp : parseDatagram data = some (token, payload))
    (hs : SeatedAt table token s) :
    (handle table src data now).1 = ((s.claim src).partner src).map (·, data) ∧
      SeatedAt (handle table src data now).2 token (s.claim src) := by
  obtain ⟨hnext, hanswer, -⟩ :=
    (hs.created now token).route src (UInt64.ofNat payload.length) now
  constructor
  · rw [(handle_of_some hp).1, hanswer]
    exact Allocation.answer_out data
  · rw [SeatedAt, (handle_of_some hp).2, if_pos rfl]
    exact hnext

theorem sweep_cases (t : SessionToken) : (r.sweep now).table[t]? = r.table[t]? ∨
    (r.sweep now).table[t]? = none := by
  unfold sweep
  split
  · show (r.table.expire now kSessionTtlSeconds).2[t]? = _ ∨ _
    rw [AllocationTable.expire_eq_sweep]
    exact Expiry.getElem?_sweep_cases
  · exact .inl rfl

/-- The datagram for `t` that comes in. -/
def arrival (t : SessionToken) (c : Call) : Option (Endpoint × Bytes) :=
  match c.op with
  | .datagram src data _ _ =>
    if (parseDatagram data).map Prod.fst = some t then some (src, data) else none
  | .nothing _ => none

/-- The datagram for `t` that goes out. -/
def emission (t : SessionToken) (c : Call) : Option (Endpoint × Bytes) :=
  match c.res with
  | some (dst, data) =>
    if (parseDatagram data).map Prod.fst = some t then some (dst, data) else none
  | none => none

/-- The allocation of `t` is swept at the end of the round. -/
def ends (t : SessionToken) (c : Call) : Prop :=
  (c.pre.table[t]? ≠ none ∨ arrival t c ≠ none) ∧ c.post.table[t]? = none

/-- The calls of one lifetime of the allocation of `t`: only the last of them can end it. -/
def Lifetime (t : SessionToken) (h : List Call) : Prop :=
  ∀ a c b, h = a ++ c :: b → b ≠ [] → ¬ ends t c

theorem step_datagram : r.step (.datagram src data now sweepNow) =
    ((handle r.table src data now).1,
      { r with table := (handle r.table src data now).2 }.sweep sweepNow) := rfl

/-- What goes out is what came in. -/
theorem res_verbatim {dst : Endpoint} {out : Bytes} (hc : (r.step e).1 = some (dst, out)) :
    ∃ src now sweepNow, e = .datagram src out now sweepNow := by
  cases e with
  | datagram src data now sweepNow =>
    rw [step_datagram] at hc
    cases hp : parseDatagram data with
    | none =>
      rw [handle_of_none hp] at hc
      cases hc
    | some p =>
      obtain ⟨token, payload⟩ := p
      simp only [(handle_of_some hp).1] at hc
      obtain ⟨-, hout⟩ := Option.ite_none_right_eq_some.mp hc
      obtain ⟨-, rfl⟩ := Prod.mk.inj (Option.some.inj hout)
      exact ⟨src, now, sweepNow, rfl⟩
  | nothing sweepNow => cases hc

theorem arrival_eq_some {x : Endpoint} : arrival t (call step r e) = some (x, data) ↔
    ∃ now sweepNow payload, e = .datagram x data now sweepNow ∧
      parseDatagram data = some (t, payload) := by
  cases e with
  | datagram src data' now sweepNow =>
    simp only [arrival, call_op, Option.ite_none_right_eq_some, Option.map_eq_some_iff,
      Option.some_inj, Prod.mk.injEq, Event.datagram.injEq]
    constructor
    · rintro ⟨⟨⟨token, payload⟩, hp, rfl⟩, rfl, rfl⟩
      exact ⟨now, sweepNow, payload, ⟨rfl, rfl, rfl, rfl⟩, hp⟩
    · rintro ⟨now', sweepNow', payload, ⟨rfl, rfl, rfl, rfl⟩, hp⟩
      exact ⟨⟨(t, payload), hp, rfl⟩, rfl, rfl⟩
  | nothing sweepNow => simp [arrival]

/-- A round without a datagram for `t` sends nothing for it, and can only drop its allocation. -/
theorem round_of_no_arrival (ha : arrival t (call step r e) = none) :
    emission t (call step r e) = none ∧ ((r.step e).2.table[t]? = r.table[t]? ∨
      (r.step e).2.table[t]? = none) := by
  constructor
  · rw [Option.eq_none_iff_forall_ne_some]
    rintro ⟨dst, out⟩ hem
    cases hres : (r.step e).1 with
    | none => simp [emission, hres] at hem
    | some p =>
      obtain ⟨dst', out'⟩ := p
      obtain ⟨src, now, sweepNow, rfl⟩ := res_verbatim hres
      simp only [emission, call_res, hres, Option.ite_none_right_eq_some,
        Option.map_eq_some_iff] at hem
      obtain ⟨⟨⟨token, payload⟩, hp, rfl⟩, -⟩ := hem
      rw [arrival_eq_some.mpr ⟨now, sweepNow, payload, rfl, hp⟩] at ha
      cases ha
  · cases e with
    | nothing sweepNow => exact sweep_cases t
    | datagram src data now sweepNow =>
      rw [step_datagram]
      have hsame : (handle r.table src data now).2[t]? = r.table[t]? := by
        cases hp : parseDatagram data with
        | none => rw [handle_of_none hp]
        | some p =>
          obtain ⟨token, payload⟩ := p
          rw [(handle_of_some hp).2 t, if_neg]
          rintro rfl
          rw [arrival_eq_some.mpr ⟨now, sweepNow, payload, rfl, hp⟩] at ha
          cases ha
      rw [← hsame]
      exact sweep_cases t

/-- A round with a datagram for `t`: its source claims a seat, and it goes to the other one. -/
theorem round_of_arrival {x : Endpoint} (ha : arrival t (call step r e) = some (x, data))
    (hs : SeatedAt r.table t s) :
    emission t (call step r e) = ((s.claim x).partner x).map (·, data) ∧
      (SeatedAt (r.step e).2.table t (s.claim x) ∨ (r.step e).2.table[t]? = none) := by
  obtain ⟨now, sweepNow, payload, rfl, hp⟩ := arrival_eq_some.mp ha
  obtain ⟨hout, hnext⟩ := handle_seated x now hp hs
  rw [step_datagram]
  constructor
  · rw [emission, call_res, step_datagram, hout]
    cases (s.claim x).partner x <;> simp [hp]
  · refine (sweep_cases t).imp ?_ id
    intro hsame
    rw [SeatedAt, hsame]
    exact hnext

theorem lifetime_of_dropLast (hl : ∀ c ∈ h.dropLast, ¬ ends t c) : Lifetime t h := by
  rintro a c b rfl hb
  apply hl
  rw [List.dropLast_append_of_ne_nil (by simp), List.dropLast_cons_of_ne_nil hb]
  simp

/-- While the allocation of `t` lives, the relay is the post between its two seats. -/
theorem lifetime_run (ht : r₀.table[t]? = none) (hr : Run r₀ h r) (hl : ∀ c ∈ h, ¬ ends t c) :
    h.filterMap (emission t) = Seats.empty.serve (h.filterMap (arrival t)) ∧
      SeatedAt r.table t (Seats.empty.seat (h.filterMap (arrival t))) := by
  induction hr with
  | nil =>
    refine ⟨rfl, ?_⟩
    rw [SeatedAt, ht]
    exact Allocation.seated_default
  | @snoc h r hr e ih =>
    obtain ⟨hserve, hseat⟩ := ih fun c hc => hl c (List.mem_append_left _ hc)
    have hkeep : ¬ ends t (call step r e) := hl _ (by simp)
    rw [List.filterMap_append, List.filterMap_append]
    cases ha : arrival t (call step r e) with
    | none =>
      obtain ⟨hquiet, hpost⟩ := round_of_no_arrival ha
      have hsame : (r.step e).2.table[t]? = r.table[t]? := by
        refine hpost.elim id fun hgone => ?_
        by_contra hne
        exact hkeep ⟨.inl fun hpre => hne (hgone.trans hpre.symm), hgone⟩
      rw [SeatedAt, hsame]
      simpa [ha, hquiet, hserve, SeatedAt] using hseat
    | some p =>
      obtain ⟨x, data⟩ := p
      obtain ⟨hout, hpost⟩ := round_of_arrival ha hseat
      have hnext := hpost.resolve_right fun hgone => hkeep ⟨.inr (by simp [ha]), hgone⟩
      have hlast := Seats.serve_append Seats.empty (h.filterMap (arrival t)) [(x, data)]
      simp only [List.filterMap_cons, ha, List.filterMap_nil, hout, hserve]
      constructor
      · rw [hlast, Seats.serve, Seats.serve, List.append_nil]
        cases ((Seats.empty.seat (h.filterMap (arrival t))).claim x).partner x <;> rfl
      · simpa [Seats.seat] using hnext

/-- The post over a whole lifetime, also when its last call sweeps the allocation. -/
theorem emissions_eq (ht : r₀.table[t]? = none) (hr : Run r₀ h r) (hl : Lifetime t h) :
    h.filterMap (emission t) = Seats.empty.serve (h.filterMap (arrival t)) := by
  cases hr with
  | nil => rfl
  | @snoc h r hr e =>
    have hkeep : ∀ c ∈ h, ¬ ends t c := by
      intro c hc
      obtain ⟨a, b, rfl⟩ := List.append_of_mem hc
      exact hl a c (b ++ [call step r e]) (by simp) (by simp)
    obtain ⟨hserve, hseat⟩ := lifetime_run ht hr hkeep
    rw [List.filterMap_append, List.filterMap_append, Seats.serve_append, hserve]
    congr 1
    cases ha : arrival t (call step r e) with
    | none => simp [ha, (round_of_no_arrival ha).1, Seats.serve]
    | some p =>
      obtain ⟨x, data⟩ := p
      simp only [List.filterMap_cons, ha, List.filterMap_nil, (round_of_arrival ha hseat).1,
        Seats.serve, List.append_nil]
      cases ((Seats.empty.seat (h.filterMap (arrival t))).claim x).partner x <;> rfl

/-- Where a datagram from one of the two sources goes. -/
def towards (x y : Endpoint) (p : Endpoint × Bytes) : Option (Endpoint × Bytes) :=
  if p.1 = x then some (y, p.2) else if p.1 = y then some (x, p.2) else none

/-- Over the calls `h` the relay forwards for `t` between the first two sources, `x` and `y`, every
datagram from the first one of `y` on, once, unchanged and in order, and nothing else. -/
structure Forwards (t : SessionToken) (h : List Call) : Prop where
  alone : ∀ x, (∀ p ∈ h.filterMap (arrival t), p.1 = x) → h.filterMap (emission t) = []
  paired : ∀ x y l₁ d l₂, h.filterMap (arrival t) = l₁ ++ (y, d) :: l₂ → l₁ ≠ [] →
    (∀ p ∈ l₁, p.1 = x) → x ≠ y →
      h.filterMap (emission t) = ((y, d) :: l₂).filterMap (towards x y)
  verbatim : ∀ c ∈ h, ∀ dst out, c.res = some (dst, out) →
    ∃ src now sweepNow, c.op = .datagram src out now sweepNow
  rejected : ∀ c ∈ h, ∀ src data now sweepNow, c.op = .datagram src data now sweepNow →
    parseDatagram data = none → c.res = none ∧ c.post = c.pre.sweep sweepNow

theorem forwards (ht : r₀.table[t]? = none) (hr : Run r₀ h r) (hl : Lifetime t h) :
    Forwards t h := by
  have hpost := emissions_eq ht hr hl
  constructor
  · intro x hx
    rw [hpost]
    exact (Seats.serve_empty _ hx).1
  · intro x y l₁ d l₂ harr hne hx hxy
    rw [hpost, harr, Seats.serve_pair hx hne hxy]
    apply List.filterMap_congr
    intro p _
    rw [towards, Seats.partner]
    split
    · rfl
    · split <;> rfl
  · intro c hc dst out hres
    rw [hr.call_of_mem hc, call_res] at hres
    exact res_verbatim hres
  · intro c hc src data now sweepNow hop hp
    have hcall := hr.call_of_mem hc
    rw [hop] at hcall
    rw [hcall, call_res, call_post, step_datagram, handle_of_none hp]
    exact ⟨rfl, rfl⟩

theorem forwards_two_sources : Forwards [7] (calls step { lastSweep := 0 }
    [.datagram { port := 1 } [1, 7, 5] 0 0, .datagram { port := 2 } [1, 7] 1 1, .nothing 9,
      .datagram { port := 3 } [1, 7, 6] 9 9, .datagram { port := 1 } [1, 7, 8] 9 100]) := by
  refine forwards (by rfl) (run_calls _ _) (lifetime_of_dropLast ?_)
  simp only [calls, List.dropLast, List.forall_mem_cons, List.not_mem_nil, false_imp_iff,
    implies_true, and_true, ends, not_and_or]
  decide

end Loop

end Redesk.Relay
