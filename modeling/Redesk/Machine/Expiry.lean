import Mathlib

/-! Sweeping a map of values that go stale: which lookups a sweep changes, and when it makes no
difference whether a map was swept before it was written. -/
namespace Expiry

variable {α β : Type*} {cmp : α → α → Ordering} [Std.TransCmp cmp] [Std.LawfulEqCmp cmp]
  {m : Std.ExtTreeMap α β cmp} {keep : β → Bool} {k k' : α} {v : β}

def sweep (keep : β → Bool) (m : Std.ExtTreeMap α β cmp) : Std.ExtTreeMap α β cmp :=
  m.filter fun _ v => keep v

theorem getElem?_sweep : (sweep keep m)[k]? = m[k]?.filter keep :=
  Std.ExtTreeMap.getElem?_filter'

/-- A lookup is the same after a sweep unless it finds something stale. -/
theorem getElem?_sweep_of_fresh (h : ∀ v, m[k]? = some v → keep v = true) :
    (sweep keep m)[k]? = m[k]? := by
  rw [getElem?_sweep]
  cases hv : m[k]? with
  | none => rfl
  | some v => simp [h v hv]

theorem getElem?_sweep_of_stale (hv : m[k]? = some v) (h : keep v = false) :
    (sweep keep m)[k]? = none := by
  rw [getElem?_sweep, hv]
  simp [h]

theorem getElem?_sweep_cases : (sweep keep m)[k]? = m[k]? ∨ (sweep keep m)[k]? = none := by
  rw [getElem?_sweep]
  cases m[k]? with
  | none => exact .inl rfl
  | some v =>
    rw [Option.filter_some]
    split
    · exact .inl rfl
    · exact .inr rfl

theorem sweep_sweep : sweep keep (sweep keep m) = sweep keep m := by
  apply Std.ExtTreeMap.ext_getElem?
  intro k
  simp [getElem?_sweep, Option.filter_filter]

/-- A write after a sweep, swept again, is the write without the first sweep. -/
theorem sweep_insert_sweep :
    sweep keep ((sweep keep m).insert k v) = sweep keep (m.insert k v) := by
  apply Std.ExtTreeMap.ext_getElem?
  intro k'
  simp only [getElem?_sweep, Std.ExtTreeMap.getElem?_insert]
  split
  · rfl
  · simp [Option.filter_filter]

end Expiry
