import Mathlib.Data.List.Basic
import Mathlib.Tactic.Common

/-! Runs of a machine that is driven by operations. Every call keeps the state it met, what it
returned and the state it left, so that a property of a run is a property of its calls. -/
namespace Machine

structure Call (σ ι ω : Type*) where
  pre : σ
  op : ι
  res : ω
  post : σ

section Along
variable {α : Type*} {P : List α → α → Prop}

/-- Where an element stands in a list that was extended by one at its end. -/
theorem snoc_eq_append_cons {h a b : List α} {x c : α} (hs : h ++ [x] = a ++ c :: b) :
    (a = h ∧ c = x ∧ b = []) ∨ ∃ b', b = b' ++ [x] ∧ h = a ++ c :: b' := by
  rcases List.eq_nil_or_concat b with rfl | ⟨b', y, rfl⟩
  · obtain ⟨ha, hx⟩ := List.append_inj' hs rfl
    exact .inl ⟨ha.symm, (List.singleton_inj.mp hx).symm, rfl⟩
  · have hs' : h ++ [x] = (a ++ c :: b') ++ [y] := by simpa using hs
    obtain ⟨ha, hx⟩ := List.append_inj' hs' rfl
    obtain rfl := List.singleton_inj.mp hx
    exact .inr ⟨b', by simp, ha⟩

/-- `P` holds of every element, given the elements before it. -/
def Along (P : List α → α → Prop) (h : List α) : Prop :=
  ∀ a c b, h = a ++ c :: b → P a c

theorem along_nil : Along P [] := by
  intro a c b h
  simp at h

theorem along_snoc {h : List α} {c : α} : Along P (h ++ [c]) ↔ Along P h ∧ P h c := by
  constructor
  · intro hp
    refine ⟨?_, hp h c [] rfl⟩
    rintro a d b rfl
    exact hp a d (b ++ [c]) (by simp)
  · rintro ⟨hp, hc⟩ a d b hd
    rcases snoc_eq_append_cons hd with ⟨rfl, rfl, rfl⟩ | ⟨b', -, rfl⟩
    · exact hc
    · exact hp a d b' rfl

theorem along_cons {h : List α} {c : α} :
    Along P (c :: h) ↔ P [] c ∧ Along (fun a => P (c :: a)) h := by
  constructor
  · intro hp
    refine ⟨hp [] c h rfl, ?_⟩
    rintro a d b rfl
    exact hp (c :: a) d b rfl
  · rintro ⟨hc, hp⟩ a d b hd
    cases a with
    | nil =>
      obtain ⟨rfl, -⟩ := List.cons_eq_cons.mp hd
      exact hc
    | cons e a =>
      obtain ⟨rfl, rfl⟩ := List.cons_eq_cons.mp hd
      exact hp a d b rfl

theorem along_append {h h' : List α} :
    Along P (h ++ h') ↔ Along P h ∧ Along (fun a => P (h ++ a)) h' := by
  induction h generalizing P with
  | nil => simp [along_nil]
  | cons c h ih =>
    rw [List.cons_append, along_cons, along_cons, ih, and_assoc]
    rfl

/-- A condition on the elements alone. -/
theorem along_forall {R : α → Prop} {h : List α} :
    Along (fun _ c => R c) h ↔ ∀ c ∈ h, R c := by
  constructor
  · intro hp c hc
    obtain ⟨a, b, rfl⟩ := List.append_of_mem hc
    exact hp a c b rfl
  · rintro hr a c b rfl
    exact hr c (by simp)

theorem along_and {P Q : List α → α → Prop} {h : List α} :
    Along (fun a c => P a c ∧ Q a c) h ↔ Along P h ∧ Along Q h := by
  constructor
  · exact fun hp => ⟨fun a c b hs => (hp a c b hs).1, fun a c b hs => (hp a c b hs).2⟩
  · exact fun hp a c b hs => ⟨hp.1 a c b hs, hp.2 a c b hs⟩

end Along

variable {σ ι ω : Type*} (step : σ → ι → ω × σ)

def call (s : σ) (i : ι) : Call σ ι ω := ⟨s, i, (step s i).1, (step s i).2⟩

/-- The calls of a run, oldest first, and the state the run ends in. -/
inductive Run (s₀ : σ) : List (Call σ ι ω) → σ → Prop where
  | nil : Run s₀ [] s₀
  | snoc {h : List (Call σ ι ω)} {s : σ} (run : Run s₀ h s) (i : ι) :
      Run s₀ (h ++ [call step s i]) (step s i).2

/-- Executing a list of operations records one call for each. -/
def calls (s : σ) : List ι → List (Call σ ι ω)
  | [] => []
  | i :: is => call step s i :: calls (step s i).2 is

def final (s : σ) : List ι → σ
  | [] => s
  | i :: is => final (step s i).2 is

variable {step} {s₀ s : σ} {h : List (Call σ ι ω)}

@[simp] theorem call_pre (s : σ) (i : ι) : (call step s i).pre = s := rfl

@[simp] theorem call_op (s : σ) (i : ι) : (call step s i).op = i := rfl

@[simp] theorem call_res (s : σ) (i : ι) : (call step s i).res = (step s i).1 := rfl

@[simp] theorem call_post (s : σ) (i : ι) : (call step s i).post = (step s i).2 := rfl

theorem Run.calls_from (hr : Run step s₀ h s) (is : List ι) :
    Run step s₀ (h ++ calls step s is) (final step s is) := by
  induction is generalizing h s with
  | nil => simpa [calls, final] using hr
  | cons i is ih => simpa [calls, final] using ih (hr.snoc i)

theorem run_calls (s₀ : σ) (is : List ι) :
    Run step s₀ (calls step s₀ is) (final step s₀ is) :=
  Run.calls_from .nil is

@[simp] theorem final_append (s : σ) (is js : List ι) :
    final step s (is ++ js) = final step (final step s is) js := by
  induction is generalizing s with
  | nil => rfl
  | cons i is ih => exact ih (step s i).2

@[simp] theorem map_op_calls (s : σ) (is : List ι) : (calls step s is).map (·.op) = is := by
  induction is generalizing s with
  | nil => rfl
  | cons i is ih => rw [calls, List.map_cons, ih, call_op]

/-- A run cut at one of its calls: the run before it, the step it is, and the run after it. -/
theorem Run.split {a b : List (Call σ ι ω)} {c : Call σ ι ω}
    (hr : Run step s₀ (a ++ c :: b) s) :
    Run step s₀ a c.pre ∧ c = call step c.pre c.op ∧ Run step c.post b s := by
  generalize hh : a ++ c :: b = h at hr
  induction hr generalizing b with
  | nil => simp at hh
  | snoc hr i ih =>
    rcases snoc_eq_append_cons hh.symm with ⟨rfl, rfl, rfl⟩ | ⟨b', rfl, hb⟩
    · exact ⟨hr, rfl, .nil⟩
    · obtain ⟨ha, hc, hb⟩ := ih hb.symm
      exact ⟨ha, hc, hb.snoc i⟩

theorem Run.call_of_mem {c : Call σ ι ω} (hr : Run step s₀ h s) (hc : c ∈ h) :
    c = call step c.pre c.op := by
  obtain ⟨a, b, rfl⟩ := List.append_of_mem hc
  exact hr.split.2.1

/-- Along a run whose calls meet `Q`, an invariant that only such calls need to keep. -/
theorem Run.invariant_of_along {I : List (Call σ ι ω) → σ → Prop}
    {Q : List (Call σ ι ω) → Call σ ι ω → Prop} (hr : Run step s₀ h s) (h0 : I [] s₀)
    (hI : ∀ h s i, Run step s₀ h s → I h s → Q h (call step s i) →
      I (h ++ [call step s i]) (step s i).2) (hq : Along Q h) : I h s := by
  induction hr with
  | nil => exact h0
  | @snoc h s hr i ih =>
    obtain ⟨hq, hc⟩ := along_snoc.mp hq
    exact hI h s i hr (ih hq) hc

/-- The rule for exact conditions, in runs whose calls all meet `F`: if under the invariant `I` such
a call has the property `P` just when it meets `Q`, and the calls that meet `Q` keep `I`, then a run
has `P` throughout just when all its calls meet `Q`. -/
theorem Run.along_iff_of {I : List (Call σ ι ω) → σ → Prop}
    {F P Q : List (Call σ ι ω) → Call σ ι ω → Prop} (hr : Run step s₀ h s) (h0 : I [] s₀)
    (hF : Along F h)
    (hI : ∀ h s i, Run step s₀ h s → I h s → F h (call step s i) → Q h (call step s i) →
      I (h ++ [call step s i]) (step s i).2)
    (hPQ : ∀ h s i, Run step s₀ h s → I h s → F h (call step s i) →
      (P h (call step s i) ↔ Q h (call step s i))) :
    Along P h ↔ Along Q h := by
  induction hr with
  | nil => exact ⟨fun _ => along_nil, fun _ => along_nil⟩
  | @snoc h s hr i ih =>
    obtain ⟨hFh, hFc⟩ := along_snoc.mp hF
    rw [along_snoc, along_snoc, ih hFh]
    refine and_congr_right fun hq => hPQ h s i hr ?_ hFc
    refine hr.invariant_of_along (Q := fun h c => F h c ∧ Q h c) h0 ?_ ?_
    · exact fun h s i hr hi hc => hI h s i hr hi hc.1 hc.2
    · exact fun a c b hs => ⟨hFh a c b hs, hq a c b hs⟩

/-- The rule for exact conditions in all runs. -/
theorem Run.along_iff {I : List (Call σ ι ω) → σ → Prop}
    {P Q : List (Call σ ι ω) → Call σ ι ω → Prop} (hr : Run step s₀ h s) (h0 : I [] s₀)
    (hI : ∀ h s i, Run step s₀ h s → I h s → Q h (call step s i) →
      I (h ++ [call step s i]) (step s i).2)
    (hPQ : ∀ h s i, Run step s₀ h s → I h s → (P h (call step s i) ↔ Q h (call step s i))) :
    Along P h ↔ Along Q h :=
  hr.along_iff_of (F := fun _ _ => True) h0 (fun _ _ _ _ => trivial)
    (fun h s i hr hi _ hq => hI h s i hr hi hq) fun h s i hr hi _ => hPQ h s i hr hi

/-- A property of states that every call keeps holds after every call of a run it starts with. -/
theorem Run.keeps {R : σ → Prop} (hr : Run step s₀ h s) (h0 : R s₀)
    (hk : ∀ c ∈ h, R c.pre → R c.post) : R s ∧ ∀ c ∈ h, R c.post := by
  induction hr with
  | nil => simpa using h0
  | @snoc h s hr i ih =>
    obtain ⟨hs, hh⟩ := ih fun c hc => hk c (List.mem_append_left _ hc)
    have hp : R (step s i).2 := hk (call step s i) (by simp) hs
    refine ⟨hp, fun c hc => ?_⟩
    rcases List.mem_append.mp hc with hc | hc
    · exact hh c hc
    · rw [List.mem_singleton.mp hc]
      exact hp

/-- A property of states that every call keeps stays once it holds. -/
theorem Run.stays {R : σ → Prop} {a b : List (Call σ ι ω)} {c : Call σ ι ω}
    (hr : Run step s₀ (a ++ c :: b) s) (hk : ∀ d ∈ a ++ c :: b, R d.pre → R d.post)
    (hc : R c.pre) : ∀ d ∈ c :: b, R d.post := by
  obtain ⟨-, -, hb⟩ := hr.split
  have hp := hk c (by simp) hc
  intro d hd
  rcases List.mem_cons.mp hd with rfl | hd
  · exact hp
  · exact (hb.keeps hp fun e he => hk e (by simp [he])).2 d hd

end Machine
