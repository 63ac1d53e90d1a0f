import Redesk.Machine.Expiry
import Redesk.Machine.Past

/-! Leases: values that are renewed from time to time, and swept when they have not been for too
long. Which ones last through a run, how old they get, and how many there can be. -/
namespace Lease
open Machine

section Lasting
variable {σ ι ω β : Type*} {step : σ → ι → ω × σ} {s₀ s : σ} {h : List (Call σ ι ω)}
  {lease : σ → Option β} {renewal : Call σ ι ω → Option β} {Lost : Call σ ι ω → β → Prop} {v₀ : β}

/-- What a call makes of a lease that stands: it is lost, or it stands, renewed or as it was. -/
def Fares (lease : σ → Option β) (renewal : Call σ ι ω → Option β) (Lost : Call σ ι ω → β → Prop)
    (c : Call σ ι ω) : Prop :=
  ∀ v, lease c.pre = some v → Lost c v ∧ lease c.post = none ∨
    ¬ Lost c v ∧ lease c.post = some ((renewal c).getD v)

/-- What the lease was last renewed to. -/
def current (renewal : Call σ ι ω → Option β) (v₀ : β) (h : List (Call σ ι ω)) : β :=
  (latest renewal h).getD v₀

@[simp] theorem current_nil : current renewal v₀ [] = v₀ := rfl

@[simp] theorem current_snoc (c : Call σ ι ω) :
    current renewal v₀ (h ++ [c]) = (renewal c).getD (current renewal v₀ h) := by
  rw [current, latest_snoc]
  cases renewal c <;> rfl

theorem Fares.next {c : Call σ ι ω} {v : β} (hf : Fares lease renewal Lost c)
    (hv : lease c.pre = some v) (hl : ¬ Lost c v) : lease c.post = some ((renewal c).getD v) := by
  rcases hf v hv with ⟨hlost, -⟩ | ⟨-, hpost⟩
  · exact absurd hlost hl
  · exact hpost

/-- A lease stands after a call just when the call does not lose it. -/
theorem Fares.stands_iff {c : Call σ ι ω} {v : β} (hf : Fares lease renewal Lost c)
    (hv : lease c.pre = some v) : lease c.post ≠ none ↔ ¬ Lost c v := by
  rcases hf v hv with ⟨hlost, hpost⟩ | ⟨hlost, hpost⟩
  · exact iff_of_false (not_not.mpr hpost) (not_not.mpr hlost)
  · exact iff_of_true (by rw [hpost]; simp) hlost

/-- A lease lasts through a run just when no call loses what it was last renewed to. -/
theorem lasts_iff (hr : Run step s₀ h s) (h0 : lease s₀ = some v₀)
    (hf : ∀ c ∈ h, Fares lease renewal Lost c) :
    (∀ c ∈ h, lease c.post ≠ none) ↔
      Along (fun a c => ¬ Lost c (current renewal v₀ a)) h := by
  rw [← along_forall]
  refine hr.along_iff_of (I := fun h s => lease s = some (current renewal v₀ h)) h0
    (along_forall.mpr hf) ?_ ?_
  · intro h s i _ hs hf hl
    rw [current_snoc]
    exact hf.next hs hl
  · intro h s i _ hs hf
    exact hf.stands_iff hs

/-- As long as it lasts, a lease is what it was last renewed to. -/
theorem eq_current (hr : Run step s₀ h s) (h0 : lease s₀ = some v₀)
    (hf : ∀ c ∈ h, Fares lease renewal Lost c) (hl : ∀ c ∈ h, lease c.post ≠ none) :
    lease s = some (current renewal v₀ h) := by
  refine hr.invariant_of_along (I := fun h s => lease s = some (current renewal v₀ h))
    (Q := fun a c => Fares lease renewal Lost c ∧ ¬ Lost c (current renewal v₀ a)) h0 ?_ ?_
  · rintro h s i - hs ⟨hf, hl⟩
    rw [current_snoc]
    exact hf.next hs hl
  · have halong := (lasts_iff hr h0 hf).mp hl
    rintro a c b rfl
    exact ⟨hf c (by simp), halong a c b rfl⟩

end Lasting

section Ageing
variable {α β γ : Type*} {cmp : α → α → Ordering} [Std.TransCmp cmp]
  {m m' : Std.ExtTreeMap α β cmp} {stamp : β → ℤ} {ttl period last t now : ℤ} {k : α} {v : β}

/-- No value of the map is older than `ttl` at the time `t`. -/
def Within (stamp : β → ℤ) (ttl t : ℤ) (m : Std.ExtTreeMap α β cmp) : Prop :=
  ∀ (k : α) (v : β), m[k]? = some v → t - stamp v ≤ ttl

theorem within_empty : Within stamp ttl t (∅ : Std.ExtTreeMap α β cmp) := by
  intro k v hv
  simp at hv

/-- It is `t` now, and the map was swept at `last`, less than a period ago. -/
structure Tended (stamp : β → ℤ) (ttl period : ℤ) (m : Std.ExtTreeMap α β cmp) (last t : ℤ) :
    Prop where
  within : Within stamp ttl last m
  past : last ≤ t
  recent : t - last < period

theorem Tended.lt (hm : Tended stamp ttl period m last t) (hv : m[k]? = some v) :
    t - stamp v < ttl + period := by
  have hwithin := hm.within k v hv
  have hrecent := hm.recent
  omega

/-- Every value was written by an element of `h`. -/
def Backed (writes : γ → Option (α × β)) (h : List γ) (m : Std.ExtTreeMap α β cmp) : Prop :=
  ∀ (k : α) (v : β), m[k]? = some v → ∃ c ∈ h, writes c = some (k, v)

variable {writes : γ → Option (α × β)} {h : List γ} {c : γ}

theorem backed_empty : Backed writes h (∅ : Std.ExtTreeMap α β cmp) := by
  intro k v hv
  simp at hv

/-- A call may write what it says that it writes. -/
theorem Backed.round (hm : Backed writes h m)
    (hnew : ∀ (k : α) (v : β), m'[k]? = some v → m[k]? = some v ∨ writes c = some (k, v)) :
    Backed writes (h ++ [c]) m' := by
  intro k v hv
  rcases hnew k v hv with hold | hw
  · obtain ⟨c', hc', hw⟩ := hm k v hold
    exact ⟨c', List.mem_append_left _ hc', hw⟩
  · exact ⟨c, by simp, hw⟩

variable [Std.LawfulEqCmp cmp]

theorem Backed.sweep {keep : β → Bool} (hm : Backed writes h m) :
    Backed writes h (Expiry.sweep keep m) := by
  intro k v hv
  rw [Expiry.getElem?_sweep] at hv
  exact hm k v (Option.eq_some_of_filter_eq_some hv)

/-- The values that are not too old at `t`, of which a sweep leaves no others. -/
def fresh (stamp : β → ℤ) (ttl t : ℤ) (v : β) : Bool := !decide (t - stamp v > ttl)

theorem tended_sweep (hp : 0 < period) :
    Tended stamp ttl period (Expiry.sweep (fresh stamp ttl t) m) t t where
  within k v hv := by
    rw [Expiry.getElem?_sweep] at hv
    obtain ⟨-, hfresh⟩ := Option.filter_eq_some_iff.mp hv
    simpa [fresh] using hfresh
  past := le_rfl
  recent := by omega

/-- A round may write values that are not older than the round before it, and sweeps when that is
due. -/
theorem Tended.round (hm : Tended stamp ttl period m last t) (h0 : 0 ≤ ttl) (hp : 0 < period)
    (hnew : ∀ (k : α) (v : β), m'[k]? = some v → m[k]? = some v ∨ t ≤ stamp v) (ht : t ≤ now) :
    if now - last ≥ period then
      Tended stamp ttl period (Expiry.sweep (fresh stamp ttl now) m') now now
    else Tended stamp ttl period m' last now := by
  split
  · exact tended_sweep hp
  · rename_i hdue
    refine ⟨fun k v hv => ?_, hm.past.trans ht, not_le.mp hdue⟩
    rcases hnew k v hv with hold | hstamp
    · exact hm.within k v hold
    · have hpast := hm.past
      omega

omit [Std.TransCmp cmp] [Std.LawfulEqCmp cmp] in
/-- Two kinds of elements that exclude each other. -/
theorem countP_add_le {p q r : γ → Bool} (hp : ∀ c ∈ h, p c = true → r c = true)
    (hq : ∀ c ∈ h, q c = true → r c = true) (hpq : ∀ c ∈ h, p c = true → q c ≠ true) :
    h.countP p + h.countP q ≤ h.countP r := by
  induction h with
  | nil => simp
  | cons c h ih =>
    have ih := ih (fun d hd => hp d (by simp [hd])) (fun d hd => hq d (by simp [hd]))
      fun d hd => hpq d (by simp [hd])
    have hp := hp c (by simp)
    have hq := hq c (by simp)
    have hpq := hpq c (by simp)
    simp only [List.countP_cons]
    cases hpc : p c <;> cases hqc : q c <;> simp_all <;> omega

/-- A map whose keys are all in a list has no more of them than the list. -/
theorem size_le_length {l : List α} (hl : ∀ (k : α) (v : β), m[k]? = some v → k ∈ l) :
    m.size ≤ l.length := by
  rw [← Std.ExtTreeMap.length_keys]
  refine (Std.ExtTreeMap.nodup_keys.subperm ?_).length_le
  intro k hk
  have hmem := Std.ExtTreeMap.mem_keys.mp hk
  exact hl k m[k] (Std.ExtTreeMap.getElem?_eq_some_getElem hmem)

/-- There are no more values than there were writes that are not too old yet. -/
theorem Tended.size_le (hm : Tended stamp ttl period m last t) (hb : Backed writes h m) :
    m.size ≤ h.countP fun c => (writes c).any fun w => decide (t - stamp w.2 < ttl + period) := by
  have hsize := size_le_length (m := m)
    (l := ((h.filterMap writes).filter fun w => decide (t - stamp w.2 < ttl + period)).map
      Prod.fst) ?_
  · rw [List.length_map, ← List.countP_eq_length_filter, List.countP_filterMap] at hsize
    refine hsize.trans (le_of_eq (List.countP_congr fun c _ => ?_))
    cases writes c <;> simp
  · intro k v hv
    obtain ⟨c, hc, hw⟩ := hb k v hv
    exact List.mem_map.mpr ⟨(k, v), List.mem_filter.mpr
      ⟨List.mem_filterMap.mpr ⟨c, hc, hw⟩, decide_eq_true (hm.lt hv)⟩, rfl⟩

end Ageing

end Lease
