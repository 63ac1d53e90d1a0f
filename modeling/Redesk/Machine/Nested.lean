import Redesk.Machine.Runs

/-! Machines whose calls run callbacks that call into the machine again. A call that is made inside
a callback is over before the call that the callback belongs to. Where every call has had its effect
when it runs its callback, it is as if each were over before the next one begins. A call that runs
callbacks on its way, or need not return, is a routine of several calls. -/
namespace Machine

variable {σ ι ω : Type*}

/-- A call, and the calls that its callback makes one after another if the call gets to it. -/
inductive Nested (ι : Type*) where
  | call (i : ι) (inside : List (Nested ι))

/-- What runs inside a callback: the calls it makes, in the order in which they begin, and the state
it leaves. -/
abbrev Callback (σ ι ω : Type*) := σ → List (Call σ ι ω) × σ

section Exec
-- one call, given what its callback does; of its own effect the call records the state that the
-- callback is run in
variable (enter : σ → ι → Callback σ ι ω → List (Call σ ι ω) × σ)

mutual

def exec : Nested ι → Callback σ ι ω
  | .call i inside => fun s => enter s i (execAll inside)

def execAll : List (Nested ι) → Callback σ ι ω
  | [] => fun s => ([], s)
  | t :: ts => fun s =>
    let (log, s) := exec t s
    let (log', s) := execAll ts s
    (log ++ log', s)

end

end Exec

/-- A call runs its callback last. -/
def CallsBackLast (step : σ → ι → ω × σ)
    (enter : σ → ι → Callback σ ι ω → List (Call σ ι ω) × σ) : Prop :=
  ∀ (cb : Callback σ ι ω), (∀ s, Run step s (cb s).1 (cb s).2) →
    ∀ s i, Run step s (enter s i cb).1 (enter s i cb).2

variable {step : σ → ι → ω × σ} {enter : σ → ι → Callback σ ι ω → List (Call σ ι ω) × σ}
  {s s' s'' : σ} {h h' : List (Call σ ι ω)}

theorem Run.append (hr : Run step s h s') (hr' : Run step s' h' s'') :
    Run step s (h ++ h') s'' := by
  induction hr' with
  | nil => rwa [List.append_nil]
  | snoc _ i ih =>
    rw [← List.append_assoc]
    exact ih.snoc i

/-- A call that was over before the next one began. -/
theorem Run.cons {c : Call σ ι ω} (hc : c = call step s c.op) (hr : Run step c.post h s') :
    Run step s (c :: h) s' := by
  have hfirst : Run step s ([] ++ [call step s c.op]) (call step s c.op).post :=
    Run.nil.snoc c.op
  rw [← hc] at hfirst
  exact hfirst.append hr

mutual

theorem CallsBackLast.run_exec (he : CallsBackLast step enter) : ∀ (t : Nested ι) (s : σ),
    Run step s (exec enter t s).1 (exec enter t s).2
  | .call i inside, s => he (execAll enter inside) (he.run_execAll inside) s i

/-- Re-entrant calls are as good as calls one after another, in the order in which they begin. -/
theorem CallsBackLast.run_execAll (he : CallsBackLast step enter) :
    ∀ (ts : List (Nested ι)) (s : σ), Run step s (execAll enter ts s).1 (execAll enter ts s).2
  | [], _ => .nil
  | t :: ts, s => (he.run_exec t s).append (he.run_execAll ts (exec enter t s).2)

end

section Routine

/-- What runs inside a callback that need not come back: the calls it makes, in order, and the state
it leaves if it ends. -/
abbrev Routine (σ ι ω : Type*) := σ → List (Call σ ι ω) × Option σ

namespace Routine

def skip : Routine σ ι ω := fun s => ([], some s)

/-- A call, whose result says whether it returns. -/
def one (step : σ → ι → ω × σ) (returns : ω → Bool) (i : ι) : Routine σ ι ω := fun s =>
  ([call step s i], if returns (step s i).1 then some (step s i).2 else none)

def andThen (r r' : Routine σ ι ω) : Routine σ ι ω := fun s =>
  match r s with
  | (log, none) => (log, none)
  | (log, some s) => (log ++ (r' s).1, (r' s).2)

def when (r : Routine σ ι ω) (b : σ → Bool) : Routine σ ι ω := fun s =>
  if b s then r s else skip s

/-- Where `P` holds of the calls so far and of the state, every call of the routine is as `Q` says,
given the calls before it, and `R` holds when it ends. It ends unless a call does not return. -/
structure Meets (returns : ω → Bool) (P : List (Call σ ι ω) → σ → Prop) (r : Routine σ ι ω)
    (Q : List (Call σ ι ω) → Call σ ι ω → Prop) (R : List (Call σ ι ω) → σ → Prop) : Prop where
  along : ∀ h s, P h s → Along (fun a c => Q (h ++ a) c) (r s).1
  ends : ∀ h s, P h s → ∀ s', (r s).2 = some s' → R (h ++ (r s).1) s'
  stuck : ∀ s, (r s).2 = none ↔ ∃ c ∈ (r s).1, returns c.res = false

variable {returns : ω → Bool} {P R S : List (Call σ ι ω) → σ → Prop} {r r' : Routine σ ι ω}
  {Q : List (Call σ ι ω) → Call σ ι ω → Prop} {b : σ → Bool}

theorem meets_skip (hpr : ∀ h s, P h s → R h s) : Meets returns P skip Q R where
  along h s _ := along_nil
  ends h s hp s' hs := by
    obtain rfl := Option.some.inj hs
    simpa [skip] using hpr h s hp
  stuck s := by simp [skip]

/-- The rule for a call. -/
theorem meets_one (i : ι) (hq : ∀ h s, P h s → Q h (call step s i))
    (hr : ∀ h s, P h s → returns (step s i).1 = true → R (h ++ [call step s i]) (step s i).2) :
    Meets returns P (one step returns i) Q R where
  along h s hp := along_cons.mpr ⟨by simpa using hq h s hp, along_nil⟩
  ends h s hp s' hs := by
    simp only [one, Option.ite_none_right_eq_some] at hs
    obtain ⟨hreturns, hs⟩ := hs
    obtain rfl := Option.some.inj hs
    exact hr h s hp hreturns
  stuck s := by simp [one]

/-- The rule for one routine after another. -/
theorem Meets.andThen (hr : Meets returns P r Q R) (hr' : Meets returns R r' Q S) :
    Meets returns P (r.andThen r') Q S where
  along h s hp := by
    have hfirst := hr.along h s hp
    unfold Routine.andThen
    split
    next log hrun => rwa [hrun] at hfirst
    next log t hrun =>
      have hthen := hr'.along _ t (hr.ends h s hp t (by rw [hrun]))
      rw [hrun] at hfirst hthen
      refine along_append.mpr ⟨hfirst, ?_⟩
      simpa using hthen
  ends h s hp s' hs := by
    unfold Routine.andThen at hs ⊢
    split at hs
    next log hrun => cases hs
    next log t hrun =>
      have hthen := hr'.ends _ t (hr.ends h s hp t (by rw [hrun])) s' hs
      rw [hrun] at hthen
      simpa using hthen
  stuck s := by
    have hfirst := hr.stuck s
    unfold Routine.andThen
    split
    next log hrun => rwa [hrun] at hfirst
    next log t hrun =>
      rw [hrun] at hfirst
      have hnone : ¬ ∃ c ∈ log, returns c.res = false := by simpa using hfirst
      rw [hr'.stuck t]
      simp only [List.mem_append, or_and_right, exists_or]
      exact (or_iff_right hnone).symm

/-- The rule for what is done on a condition. -/
theorem Meets.when (hr : Meets returns (fun h s => P h s ∧ b s = true) r Q R)
    (hskip : ∀ h s, P h s → b s = false → R h s) : Meets returns P (r.when b) Q R where
  along h s hp := by
    unfold Routine.when
    split
    next hb => exact hr.along h s ⟨hp, hb⟩
    next => exact along_nil
  ends h s hp s' hs := by
    unfold Routine.when at hs ⊢
    split at hs
    next hb =>
      rw [if_pos hb]
      exact hr.ends h s ⟨hp, hb⟩ s' hs
    next hb =>
      obtain rfl := Option.some.inj hs
      simpa [if_neg hb, skip] using hskip h s hp (by simpa using hb)
  stuck s := by
    unfold Routine.when
    split
    next => exact hr.stuck s
    next => simp [skip]

theorem Meets.imp {P' R' : List (Call σ ι ω) → σ → Prop} (hr : Meets returns P r Q R)
    (hp : ∀ h s, P' h s → P h s) (hr' : ∀ h s, R h s → R' h s) : Meets returns P' r Q R' where
  along h s hp' := hr.along h s (hp h s hp')
  ends h s hp' s' hs := hr' _ _ (hr.ends h s (hp h s hp') s' hs)
  stuck := hr.stuck

end Routine
end Routine
end Machine
