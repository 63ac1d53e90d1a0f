import Redesk.Session.Effects
import Redesk.Machine.Past

/-! The lifecycle of one session over a whole run, and when an ended session stays ended. -/
namespace Redesk.SessionManager
open Machine

abbrev Call := Machine.Call SessionManager Op Reply

/-- The runs of a new manager. -/
abbrev Run (clock : ℕ → UInt64) : List Call → SessionManager → Prop :=
  Machine.Run (step clock) {}

theorem run_ops (clock : ℕ → UInt64) (ops : List Op) :
    Run clock (calls (step clock) {} ops) (final (step clock) {} ops) := run_calls _ ops

variable {clock : ℕ → UInt64} {m : SessionManager} {h : List Call}

section Effect
variable {op : Op} {id : UInt64} {s t : Session}

theorem find_unique (hs : m.find id = some s) (ht : m.find id = some t) : s = t :=
  Option.some.inj (hs.symm.trans ht)

theorem effect_eq_create {peer : PeerInfo} (he : m.effect op = .create id peer) :
    op = .beginSession peer ∧ peer.fingerprint ∉ m.denyList ∧ id = m.nextId ∧
      m.find id = none := by
  cases op with
  | beginSession p =>
    simp only [effect] at he
    split_ifs at he with hk
    obtain ⟨rfl, rfl⟩ := Effect.create.inj he
    simp_all
  | _ => grind [effect]

theorem effect_eq_activate {caps : Capabilities} (he : m.effect op = .activate id caps) :
    ∃ requested, op = .authorize id requested ∧ (m.find id).isSome ∧
      allowedBits requested m.ceiling ≠ 0 ∧ caps = clamp requested m.ceiling := by
  cases op with
  | authorize i r =>
    simp only [effect] at he
    split_ifs at he with hk ha
    obtain ⟨rfl, rfl⟩ := Effect.activate.inj he
    exact ⟨r, rfl, hk, ha, rfl⟩
  | _ => grind [effect]

theorem effect_eq_move {next : SessionState} (he : m.effect op = .move id next) :
    (next = .authenticating ∧ op = .onHandshakeStarted id) ∨
    (next = .denied ∧ ((∃ fp, op = .onHandshakeCompleted id fp ∧ fp ∈ m.denyList) ∨
      (∃ requested, op = .authorize id requested ∧ allowedBits requested m.ceiling = 0) ∨
      ∃ reason, op = .deny id reason)) ∨
    (next = .closed ∧ op = .closeSession id) := by
  cases op <;> grind [effect]

variable (clock) in
/-- What a call leaves of a session that it meets. -/
theorem session_step (op : Op) (hs : m.find id = some s) :
    ∃ s', (m.step clock op).2.find id = some s' ∧ s'.peer = s.peer ∧
      (((m.effect op).subject ≠ some id ∧ s' = s) ∨
        (∃ next, m.effect op = .move id next ∧ s' = s.setState next) ∨
        ∃ caps, m.effect op = .activate id caps ∧ s' = (s.grant caps).setState .active) := by
  rw [find_step]
  by_cases hi : (m.effect op).subject = some id
  · rw [if_pos hi, hs]
    cases he : m.effect op with
    | keep => rw [he] at hi; cases hi
    | create i peer =>
      obtain rfl : i = id := by simpa [he, Effect.subject] using hi
      obtain ⟨-, -, -, hn⟩ := effect_eq_create he
      rw [hs] at hn
      cases hn
    | move i next =>
      obtain rfl : i = id := by simpa [he, Effect.subject] using hi
      exact ⟨s.setState next, rfl, rfl, .inr (.inl ⟨next, rfl, rfl⟩)⟩
    | activate i caps =>
      obtain rfl : i = id := by simpa [he, Effect.subject] using hi
      exact ⟨(s.grant caps).setState .active, rfl, rfl, .inr (.inr ⟨caps, rfl, rfl⟩)⟩
  · rw [if_neg hi]
    exact ⟨s, hs, rfl, .inl ⟨hi, rfl⟩⟩

/-- A session that a call makes is pending and holds nothing. -/
theorem session_created (hs : m.find id = none) (hs' : (m.step clock op).2.find id = some s) :
    ∃ peer, op = .beginSession peer ∧ peer.fingerprint ∉ m.denyList ∧
      s = { id := id, peer := peer } := by
  rw [find_step] at hs'
  by_cases hi : (m.effect op).subject = some id
  · rw [if_pos hi, hs] at hs'
    cases he : m.effect op with
    | keep => rw [he] at hi; cases hi
    | create i peer =>
      obtain rfl : i = id := by simpa [he, Effect.subject] using hi
      obtain ⟨hop, hd, -, -⟩ := effect_eq_create he
      refine ⟨peer, hop, hd, ?_⟩
      simpa [he, Effect.act] using hs'.symm
    | move i next => simp [he, Effect.act] at hs'
    | activate i caps => simp [he, Effect.act] at hs'
  · rw [if_neg hi, hs] at hs'
    cases hs'

variable (clock) in
theorem find_started (hs : m.find id = some s) :
    (m.step clock (.onHandshakeStarted id)).2.find id = some (s.setState .authenticating) := by
  simp [effect, hs, Effect.subject, Effect.act]

variable (clock) in
theorem find_authorized {requested : Capabilities} (hs : m.find id = some s)
    (ha : allowedBits requested m.ceiling ≠ 0) :
    (m.step clock (.authorize id requested)).2.find id =
      some ((s.grant (clamp requested m.ceiling)).setState .active) := by
  have he := effect_authorize (Option.isSome_of_eq_some hs) ha
  simp [he, hs, Effect.subject, Effect.act]

end Effect

@[simp] theorem checkPermission_fst (id : UInt64) (needed : Capabilities) :
    (m.checkPermission clock id needed).1 = (m.find id).any (·.isAllowed needed) := by
  unfold checkPermission
  cases hs : m.find id with
  | none => rfl
  | some s => cases ha : s.isAllowed needed <;> simp [ha]

/-- The gate stands open for an active session that holds the mask. -/
theorem checkPermission_iff {id : UInt64} {needed : Capabilities} :
    (m.checkPermission clock id needed).1 = true ↔
      ∃ s, m.find id = some s ∧ s.state = .active ∧ hasCapability s.granted needed = true := by
  rw [checkPermission_fst, Option.any_eq_true]
  simp [Session.isAllowed]

/-- Every gate on an active session passes the empty mask. -/
theorem checkPermission_none {id : UInt64} {s : Session} (hs : m.find id = some s)
    (ha : s.state = .active) : (m.checkPermission clock id .none).1 = true :=
  checkPermission_iff.mpr ⟨s, hs, ha, by simp [hasCapability, Capabilities.none]⟩

/-- A session that was denied or closed. -/
def Ended (m : SessionManager) (id : UInt64) : Prop :=
  ∃ s, m.find id = some s ∧ (s.state = .denied ∨ s.state = .closed)

instance (m : SessionManager) (id : UInt64) : Decidable (Ended m id) :=
  decidable_of_iff ((m.find id).any fun s => decide (s.state = .denied ∨ s.state = .closed))
    (by simp [Ended, Option.any_eq_true])

/-- A call that takes an ended session up again. -/
def Reopens (m : SessionManager) (op : Op) : Prop :=
  ∃ id, Ended m id ∧ (op = .onHandshakeStarted id ∨
    ∃ requested, op = .authorize id requested ∧ allowedBits requested m.ceiling ≠ 0)

/-- What ended stays ended, and the gate stays shut for it. -/
def TerminalStays (clock : ℕ → UInt64) (h : List Call) : Prop :=
  ∀ a c b, h = a ++ c :: b → ∀ id, Ended c.pre id → ∀ d ∈ c :: b, Ended d.post id ∧
    ∀ needed, (d.post.checkPermission clock id needed).1 = false

theorem Ended.gate_shut {id : UInt64} (he : Ended m id) (needed : Capabilities) :
    (m.checkPermission clock id needed).1 = false := by
  rw [Bool.eq_false_iff]
  intro hc
  obtain ⟨s, hs, hst⟩ := he
  obtain ⟨t, ht, ha, -⟩ := checkPermission_iff.mp hc
  obtain rfl : s = t := find_unique hs ht
  rcases hst with hst | hst <;> rw [ha] at hst <;> cases hst

variable (clock) in
theorem ended_step {op : Op} :
    (∀ id, Ended m id → Ended (m.step clock op).2 id) ↔ ¬ Reopens m op := by
  constructor
  · rintro hk ⟨id, he, hop⟩
    obtain ⟨t, ht, hst⟩ := hk id he
    obtain ⟨s, hs, -⟩ := he
    rcases hop with rfl | ⟨r, rfl, ha⟩
    · rw [find_started clock hs] at ht
      obtain rfl := Option.some.inj ht
      rcases hst with hst | hst <;> cases hst
    · rw [find_authorized clock hs ha] at ht
      obtain rfl := Option.some.inj ht
      rcases hst with hst | hst <;> cases hst
  · intro hr id he
    obtain ⟨s, hs, hst⟩ := he
    obtain ⟨s', hs', -, hcase⟩ := session_step clock op hs
    rcases hcase with ⟨-, rfl⟩ | ⟨next, hm, rfl⟩ | ⟨caps, ha, rfl⟩
    · exact ⟨s', hs', hst⟩
    · refine ⟨_, hs', ?_⟩
      rcases effect_eq_move hm with ⟨-, hop⟩ | ⟨rfl, -⟩ | ⟨rfl, -⟩
      · exact (hr ⟨id, ⟨s, hs, hst⟩, .inl hop⟩).elim
      · exact .inl rfl
      · exact .inr rfl
    · obtain ⟨r, hop, -, ha, -⟩ := effect_eq_activate ha
      exact (hr ⟨id, ⟨s, hs, hst⟩, .inr ⟨r, hop, ha⟩⟩).elim

/-- Denied and Closed are terminal throughout a run just when no handshake is started and no
grant is made on a session that is denied or closed. -/
theorem terminalStays_iff (hr : Run clock h m) :
    TerminalStays clock h ↔ ∀ c ∈ h, ¬ Reopens c.pre c.op := by
  constructor
  · intro ht c hc
    obtain ⟨a, b, rfl⟩ := List.append_of_mem hc
    obtain ⟨-, hstep, -⟩ := hr.split
    refine (ended_step clock).mp fun id he => ?_
    have hp := (ht a c b rfl id he c (by simp)).1
    rwa [hstep] at hp
  · rintro hg a c b rfl id he d hd
    have hk : ∀ d ∈ a ++ c :: b, Ended d.pre id → Ended d.post id := by
      intro d hd hp
      obtain ⟨a', b', hs⟩ := List.append_of_mem hd
      have hr' := hr
      rw [hs] at hr'
      obtain ⟨-, hstep, -⟩ := hr'.split
      rw [hstep]
      exact (ended_step clock).mpr (hg d hd) id hp
    have hpost := hr.stays (R := fun m => Ended m id) hk he d hd
    exact ⟨hpost, hpost.gate_shut⟩

/-- A peer, for runs on fixed inputs. -/
def guest : PeerInfo := { redeskId := "123-456", fingerprint := "11111 22222" }

theorem terminalStays_closed : TerminalStays (fun _ => 0) (calls (step fun _ => 0) {}
    [.beginSession guest, .closeSession 1, .checkPermission 1 .viewOnly]) :=
  (terminalStays_iff (run_ops _ _)).mpr (by simp [calls, Reopens])

/-- A closed session is authorized again. -/
theorem not_terminalStays_reauthorized : ¬ TerminalStays (fun _ => 0)
    (calls (step fun _ => 0) {}
      [.beginSession guest, .closeSession 1, .authorize 1 .viewOnly]) := by
  intro ht
  have hs := ht (calls (step fun _ => 0) {} [.beginSession guest, .closeSession 1]) _ [] rfl 1
    (by decide) _ (List.mem_singleton_self _)
  exact absurd (hs.2 .viewOnly) (by decide)

end Redesk.SessionManager
