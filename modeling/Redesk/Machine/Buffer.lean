import Mathlib.Data.List.Basic
import Mathlib.Tactic.Common

/-! Bytes that come from outside: slices of a buffer that must lie within it, and items that are cut
off a stream while it arrives in chunks. -/
namespace Buffer

variable {α β : Type*}

/-- The `n` elements from `off` on; a slice that reaches past the end has no value. -/
def slice (data : List β) (off n : ℕ) : Option (List β) :=
  if off + n ≤ data.length then some ((data.drop off).take n) else none

/-- A slice taken from the part of the buffer that begins at `off`. -/
theorem slice_of_drop {data rest : List β} {off n : ℕ} (hd : data.drop off = rest)
    (h : off + n ≤ data.length) : slice data off n = some (rest.take n) := by
  rw [slice, if_pos h, hd]

theorem getElem?_of_drop {data rest : List β} {off : ℕ} {x : β} (hd : data.drop off = x :: rest) :
    data[off]? = some x := by
  rw [← List.head?_drop, hd, List.head?_cons]

/-- What stands at the head of a buffer: nothing complete yet, something that no further input can
make good, or an item. -/
inductive Cut (α β : Type*) where
  | more
  | bad
  | item (x : α) (rest : List β)

/-- A rule for cutting a stream into items. What it says of a buffer, further input does not
change. -/
structure Reader (α β : Type*) where
  cut : List β → Cut α β
  shorter : ∀ {b x rest}, cut b = .item x rest → rest.length < b.length
  item_append : ∀ {b x rest}, cut b = .item x rest → ∀ c, cut (b ++ c) = .item x (rest ++ c)
  bad_append : ∀ {b}, cut b = .bad → ∀ c, cut (b ++ c) = .bad

namespace Reader

variable {r : Reader α β} {b left : List β} {x : α} {xs : List α} {cs : List (List β)}

variable (r) in
/-- All items of a buffer, and what is left of it; nothing is left when it turns bad. -/
def drain (b : List β) : List α × Option (List β) :=
  match h : r.cut b with
  | .more => ([], some b)
  | .bad => ([], none)
  | .item x rest =>
    have := r.shorter h
    (x :: (drain rest).1, (drain rest).2)
termination_by b.length

theorem drain_more (h : r.cut b = .more) : r.drain b = ([], some b) := by
  rw [drain]
  split <;> simp_all

theorem drain_bad (h : r.cut b = .bad) : r.drain b = ([], none) := by
  rw [drain]
  split <;> simp_all

theorem drain_item (h : r.cut b = .item x left) :
    r.drain b = (x :: (r.drain left).1, (r.drain left).2) := by
  rw [drain]
  split <;> simp_all

/-- What is left holds no further item. -/
theorem cut_left (h : (r.drain b).2 = some left) : r.cut left = .more := by
  induction b using Reader.drain.induct (r := r) with
  | case1 b hc =>
    rw [drain_more hc] at h
    obtain rfl := Option.some.inj h
    exact hc
  | case2 b hc =>
    rw [drain_bad hc] at h
    cases h
  | case3 b x rest hc _ ih =>
    rw [drain_item hc] at h
    exact ih h

/-- A buffer without items is left as it is. -/
theorem left_of_drain_nil (h : r.drain b = ([], some left)) : left = b := by
  cases hc : r.cut b with
  | more =>
    rw [drain_more hc] at h
    exact (Option.some.inj (Prod.mk.inj h).2).symm
  | bad =>
    rw [drain_bad hc] at h
    cases h
  | item x rest =>
    rw [drain_item hc] at h
    cases h

/-- The input is the items that are drained, written one after the other, and what follows them. -/
theorem eq_flatMap_append {f : α → List β}
    (hf : ∀ {b x rest}, r.cut b = .item x rest → b = f x ++ rest) (b : List β) :
    ∃ left, b = (r.drain b).1.flatMap f ++ left ∧
      ((r.drain b).2 = some left ∧ r.cut left = .more ∨
        (r.drain b).2 = none ∧ r.cut left = .bad) := by
  induction b using Reader.drain.induct (r := r) with
  | case1 b hc => exact ⟨b, by simp [drain_more hc], .inl ⟨by rw [drain_more hc], hc⟩⟩
  | case2 b hc => exact ⟨b, by simp [drain_bad hc], .inr ⟨by rw [drain_bad hc], hc⟩⟩
  | case3 b x rest hc _ ih =>
    obtain ⟨left, hrest, hleft⟩ := ih
    rw [drain_item hc]
    refine ⟨left, ?_, hleft⟩
    calc b = f x ++ rest := hf hc
      _ = f x ++ ((r.drain rest).1.flatMap f ++ left) := by rw [← hrest]
      _ = _ := by rw [List.flatMap_cons, List.append_assoc]

/-- Draining as soon as a part of the input is there makes no difference. -/
theorem drain_append (c : List β) : r.drain (b ++ c) =
    match (r.drain b).2 with
    | none => r.drain b
    | some left => ((r.drain b).1 ++ (r.drain (left ++ c)).1, (r.drain (left ++ c)).2) := by
  induction b using Reader.drain.induct (r := r) with
  | case1 b hc => simp [drain_more hc]
  | case2 b hc => simp [drain_bad hc, drain_bad (r.bad_append hc c)]
  | case3 b x rest hc _ ih =>
    rw [drain_item hc, drain_item (r.item_append hc c), ih]
    cases hl : (r.drain rest).2 <;> simp [hl]

variable (r) in
/-- The items that the chunks bring, each drained together with what the ones before it left. -/
def feed (b : List β) : List (List β) → List α × Option (List β)
  | [] => ([], some b)
  | c :: cs =>
    match (r.drain (b ++ c)).2 with
    | none => r.drain (b ++ c)
    | some left => ((r.drain (b ++ c)).1 ++ (feed left cs).1, (feed left cs).2)

/-- How the input is split into chunks makes no difference. -/
theorem feed_eq_drain (h : r.cut b = .more) : r.feed b cs = r.drain (b ++ cs.flatten) := by
  induction cs generalizing b with
  | nil => simp [feed, drain_more h]
  | cons c cs ih =>
    rw [feed, List.flatten_cons, ← List.append_assoc, drain_append (b := b ++ c)]
    cases hl : (r.drain (b ++ c)).2 with
    | none => rfl
    | some left => simp only [ih (cut_left hl)]

end Reader

end Buffer
