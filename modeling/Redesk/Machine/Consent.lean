import Mathlib.Data.Set.Lattice
import Redesk.Machine.Past

/-! A consent ledger: what an access monitor with a per-subject switch permits. A subject
enters with nothing, its grants only grow by consent, and it may use them while it runs.
Consent starts it and a suspension stops it. -/
namespace Machine.Consent

variable {ι κ : Type*}

structure Standing (κ : Type*) where
  running : Prop
  held : Set κ

inductive Event (ι κ : Type*) where
  | enter (i : ι)
  | suspend (i : ι)
  | consent (i : ι) (grant : Set κ)
  | other

def Event.subject : Event ι κ → Option ι
  | .enter i | .suspend i | .consent i _ => some i
  | .other => none

abbrev Ledger (ι κ : Type*) := ι → Option (Standing κ)

/-- What an event does to the standing of its subject. -/
def Event.act : Event ι κ → Option (Standing κ) → Option (Standing κ)
  | .enter _, _ => some ⟨False, ∅⟩
  | .suspend _, st => st.map fun st => ⟨False, st.held⟩
  | .consent _ grant, st => st.map fun st => ⟨True, st.held ∪ grant⟩
  | .other, st => st

open Classical in
noncomputable def post (L : Ledger ι κ) (e : Event ι κ) : Ledger ι κ :=
  fun i => if e.subject = some i then e.act (L i) else L i

/-- The ledger after the events, oldest first. -/
noncomputable def replay (evs : List (Event ι κ)) : Ledger ι κ := evs.foldl post fun _ => none

def Permits (L : Ledger ι κ) (i : ι) (needed : Set κ) : Prop :=
  ∃ st, L i = some st ∧ st.running ∧ needed ⊆ st.held

def IsConsent (i : ι) (e : Event ι κ) : Prop := ∃ grant, e = .consent i grant

def Touches (i : ι) (e : Event ι κ) : Prop := e.subject = some i

@[simp] theorem replay_nil : replay ([] : List (Event ι κ)) = fun _ => none := rfl

@[simp] theorem replay_snoc (evs : List (Event ι κ)) (e : Event ι κ) :
    replay (evs ++ [e]) = post (replay evs) e := by
  simp [replay]

theorem post_of_subject_ne {L : Ledger ι κ} {e : Event ι κ} {i : ι} (h : ¬ Touches i e) :
    post L e i = L i := if_neg h

theorem post_of_subject {L : Ledger ι κ} {e : Event ι κ} {i : ι} (h : Touches i e) :
    post L e i = e.act (L i) := if_pos h

/-- A subject runs only if consent was the last thing that happened to it. -/
theorem running_since_consent {evs : List (Event ι κ)} {i : ι} {st : Standing κ}
    (hst : replay evs i = some st) (hr : st.running) :
    Since (IsConsent i) (Touches i) evs := by
  induction evs using List.reverseRecOn generalizing st with
  | nil => simp at hst
  | append_singleton evs e ih =>
    rw [replay_snoc] at hst
    rw [since_snoc]
    by_cases ht : Touches i e
    · left
      rw [post_of_subject ht] at hst
      cases e with
      | enter j =>
        obtain rfl := Option.some.inj hst
        exact hr.elim
      | suspend j =>
        obtain ⟨st', -, rfl⟩ := Option.map_eq_some_iff.mp hst
        exact hr.elim
      | consent j grant =>
        obtain rfl : j = i := Option.some.inj ht
        exact ⟨grant, rfl⟩
      | other => cases ht
    · rw [post_of_subject_ne ht] at hst
      exact .inr ⟨ht, ih hst hr⟩

/-- Everything a subject holds was consented to. -/
theorem held_consented {evs : List (Event ι κ)} {i : ι} {st : Standing κ}
    (hst : replay evs i = some st) {c : κ} (hc : c ∈ st.held) :
    ∃ grant, Event.consent i grant ∈ evs ∧ c ∈ grant := by
  induction evs using List.reverseRecOn generalizing st with
  | nil => simp at hst
  | append_singleton evs e ih =>
    rw [replay_snoc] at hst
    have old {st' : Standing κ} (h : replay evs i = some st') (hc : c ∈ st'.held) :
        ∃ grant, Event.consent i grant ∈ evs ++ [e] ∧ c ∈ grant := by
      obtain ⟨grant, hm, hg⟩ := ih h hc
      exact ⟨grant, List.mem_append_left _ hm, hg⟩
    by_cases ht : Touches i e
    · rw [post_of_subject ht] at hst
      cases e with
      | enter j =>
        obtain rfl := Option.some.inj hst
        exact hc.elim
      | suspend j =>
        obtain ⟨st', hst', rfl⟩ := Option.map_eq_some_iff.mp hst
        exact old hst' hc
      | consent j grant =>
        obtain rfl : j = i := Option.some.inj ht
        obtain ⟨st', hst', rfl⟩ := Option.map_eq_some_iff.mp hst
        rcases hc with hc | hc
        · exact old hst' hc
        · exact ⟨grant, by simp, hc⟩
      | other => cases ht
    · rw [post_of_subject_ne ht] at hst
      exact old hst hc

/-- Default-deny: what is permitted rests on consent that nothing has revoked since, and each
part of it on a consent that named it. -/
theorem permits_provenance {evs : List (Event ι κ)} {i : ι} {needed : Set κ}
    (h : Permits (replay evs) i needed) :
    Since (IsConsent i) (Touches i) evs ∧
      ∀ c ∈ needed, ∃ grant, Event.consent i grant ∈ evs ∧ c ∈ grant := by
  obtain ⟨st, hst, hr, hn⟩ := h
  exact ⟨running_since_consent hst hr, fun c hc => held_consented hst (hn hc)⟩

end Machine.Consent
