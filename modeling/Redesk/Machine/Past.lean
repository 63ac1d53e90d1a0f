import Mathlib.Data.List.Induction
import Redesk.Machine.Runs

/-! What a list of calls says about the past of the state it ends in: an event that nothing has
undone since, and the most recent or the first value that an event has set. -/
namespace Machine

variable {α β γ : Type*}

/-- An element with `p` occurs, and none with `q` after it. -/
def Since (p q : α → Prop) (h : List α) : Prop :=
  ∃ a c b, h = a ++ c :: b ∧ p c ∧ ∀ d ∈ b, ¬ q d

section Since
variable {p q p' q' : α → Prop} {h : List α}

@[simp] theorem since_nil : ¬ Since p q [] := by
  rintro ⟨a, c, b, hs, -⟩
  simp at hs

@[simp] theorem since_snoc {c : α} :
    Since p q (h ++ [c]) ↔ p c ∨ ¬ q c ∧ Since p q h := by
  constructor
  · rintro ⟨a, d, b, hs, hd, hb⟩
    rcases snoc_eq_append_cons hs with ⟨rfl, rfl, rfl⟩ | ⟨b', rfl, rfl⟩
    · exact .inl hd
    · exact .inr ⟨hb c (by simp), a, d, b', rfl, hd, fun e he => hb e (by simp [he])⟩
  · rintro (hc | ⟨hc, a, d, b, rfl, hd, hb⟩)
    · exact ⟨h, c, [], rfl, hc, by simp⟩
    · refine ⟨a, d, b ++ [c], by simp, hd, fun e he => ?_⟩
      rcases List.mem_append.mp he with he | he
      · exact hb e he
      · rw [List.mem_singleton.mp he]
        exact hc

theorem Since.exists_mem (hs : Since p q h) : ∃ c ∈ h, p c := by
  obtain ⟨a, c, b, rfl, hc, -⟩ := hs
  exact ⟨c, by simp, hc⟩

/-- The event may be weakened and the events that undo it may be fewer. -/
theorem Since.imp (hs : Since p q h) (hp : ∀ c ∈ h, p c → p' c)
    (hq : ∀ c ∈ h, q' c → q c) : Since p' q' h := by
  obtain ⟨a, c, b, rfl, hc, hb⟩ := hs
  exact ⟨a, c, b, rfl, hp c (by simp) hc, fun d hd hd' => hb d hd (hq d (by simp [hd]) hd')⟩

/-- Of two kinds of events that undo each other only one is in force. -/
theorem Since.not_since (hp : Since p q h) (hpq : ∀ c, p c → ¬ q c) : ¬ Since q p h := by
  induction h using List.reverseRecOn with
  | nil => exact since_nil
  | append_singleton h c ih =>
    intro hq
    rcases since_snoc.mp hp with hc | ⟨hnq, hp⟩
    · rcases since_snoc.mp hq with hc' | ⟨hnp, -⟩
      · exact hpq c hc hc'
      · exact hnp hc
    · exact ih hp ((since_snoc.mp hq).resolve_left hnq).2

/-- An event that a `p` undoes and that is nevertheless in force comes after the last `p`. -/
theorem Since.exists_mem_after {r : α → Prop} (hp : Since p q h) (hr : Since r p h)
    (hpr : ∀ c, r c → ¬ p c) :
    ∃ a c b, h = a ++ c :: b ∧ p c ∧ (∀ d ∈ b, ¬ q d) ∧ ∃ d ∈ b, r d := by
  induction h using List.reverseRecOn with
  | nil => exact absurd hp since_nil
  | append_singleton h e ih =>
    have hne : ¬ p e := by
      rcases since_snoc.mp hr with he | ⟨he, -⟩
      · exact hpr e he
      · exact he
    obtain ⟨hq, hp⟩ := (since_snoc.mp hp).resolve_left hne
    rcases since_snoc.mp hr with he | ⟨-, hr⟩
    · obtain ⟨a, c, b, rfl, hc, hb⟩ := hp
      refine ⟨a, c, b ++ [e], by simp, hc, ?_, e, by simp, he⟩
      simpa [or_imp, forall_and] using ⟨hb, hq⟩
    · obtain ⟨a, c, b, rfl, hc, hb, d, hd, hrd⟩ := ih hp hr
      refine ⟨a, c, b ++ [e], by simp, hc, ?_, d, by simp [hd], hrd⟩
      simpa [or_imp, forall_and] using ⟨hb, hq⟩

theorem since_map {f : γ → α} {l : List γ} :
    Since p q (l.map f) ↔ Since (fun c => p (f c)) (fun c => q (f c)) l := by
  induction l using List.reverseRecOn with
  | nil => simp
  | append_singleton l c ih => simp [ih]

end Since

/-- The most recent value that `f` reads off an element. -/
def latest (f : α → Option β) (h : List α) : Option β := h.foldl (fun o c => (f c).or o) none

@[simp] theorem latest_nil (f : α → Option β) : latest f [] = none := rfl

@[simp] theorem latest_snoc (f : α → Option β) (h : List α) (c : α) :
    latest f (h ++ [c]) = (f c).or (latest f h) := by
  simp [latest]

/-- The first value that `f` reads off an element, as the list grows at its end. -/
theorem findSome?_snoc (f : α → Option β) (h : List α) (c : α) :
    (h ++ [c]).findSome? f = (h.findSome? f).or (f c) := by
  rw [List.findSome?_append]
  cases hc : f c <;> simp [hc]

/-- A relation between the values that `f` reads off, as a condition on each element given the ones
before it. -/
theorem pairwise_filterMap_iff_along {f : α → Option β} {R : β → β → Prop} {h : List α} :
    (h.filterMap f).Pairwise R ↔
      Along (fun a c => ∀ y, f c = some y → ∀ x ∈ a.filterMap f, R x y) h := by
  induction h using List.reverseRecOn with
  | nil => simp [along_nil]
  | append_singleton h c ih =>
    rw [List.filterMap_append, along_snoc, ← ih, List.pairwise_append]
    cases hc : f c <;> simp [hc]

end Machine
