import Redesk.Session.Audit

/-! What the observers of a manager are told, and how far it is what the manager holds. -/
namespace Redesk

/-- The session that an effect moves, and the state it is moved to. -/
def SessionManager.Effect.moved : SessionManager.Effect → Option (UInt64 × SessionState)
  | .move sessionId next => some (sessionId, next)
  | .activate sessionId _ => some (sessionId, .active)
  | .keep | .create _ _ => none

def Notice.moved : Notice → Option (UInt64 × SessionState)
  | .state sessionId next => some (sessionId, next)
  | .audit _ => none

def Notice.record : Notice → Option AuditRecord
  | .state _ _ => none
  | .audit r => some r

namespace SessionManager
open Machine

/-- What the state callback was called with, oldest first. -/
def told (m : SessionManager) : List (UInt64 × SessionState) := m.notices.filterMap Notice.moved

/-- What the audit callback was called with. -/
def heard (m : SessionManager) : List AuditRecord := m.notices.filterMap Notice.record

/-- The state that an observer knows a session to be in; new sessions are pending. -/
def known (m : SessionManager) (sessionId : UInt64) : SessionState :=
  (latest (fun e => if e.1 = sessionId then some e.2 else none) m.told).getD .pending

/-- The move that a call makes. -/
def move (c : Call) : Option (UInt64 × SessionState) := (c.pre.effect c.op).moved

/-- Every move of the session was made with a state callback in place. -/
def Followed (h : List Call) (sessionId : UInt64) : Prop :=
  ∀ c ∈ h, (move c).map Prod.fst = some sessionId → c.pre.stateCb = true

structure Observed (h : List Call) (m : SessionManager) : Prop where
  told : m.told = (h.filter fun c => c.pre.stateCb).filterMap move
  heard : m.heard = (h.filter fun c => c.pre.auditCb).flatMap appended
  /-- An observer of all moves of a session knows its state. -/
  states : ∀ sessionId s, m.find sessionId = some s → Followed h sessionId →
    m.known sessionId = s.state
  /-- An observer of all records knows the log. -/
  records : (∀ c ∈ h, appended c ≠ [] → c.pre.auditCb = true) → m.heard = m.audit
  /-- Nobody controls the machine unknown to an observer of all moves. -/
  controlled : (∀ sessionId, Followed h sessionId) → m.isBeingControlled = true →
    ∃ sessionId, m.known sessionId = .active

variable {clock : ℕ → UInt64} {m : SessionManager} {h : List Call} {op : Op}

section Primitives
variable (fp detail : String) (ev : AuditEvent) (id : UInt64) (s : Session) (next : SessionState)

@[simp] theorem told_record : (m.record clock fp ev detail).told = m.told := by
  unfold told record
  split <;> simp [Notice.moved]

@[simp] theorem told_transition :
    (m.transition id s next).told = m.told ++ if m.stateCb then [(s.id, next)] else [] := by
  unfold told transition
  cases m.stateCb <;> simp [Notice.moved]

@[simp] theorem stateCb_record : (m.record clock fp ev detail).stateCb = m.stateCb := rfl

@[simp] theorem told_store : (m.store id s).told = m.told := rfl

@[simp] theorem told_pin (redeskId : String) : (m.pin redeskId fp).told = m.told := rfl

@[simp] theorem stateCb_store : (m.store id s).stateCb = m.stateCb := rfl

variable (requested : Capabilities)

@[simp] theorem told_auditRefused : (m.auditRefused clock fp requested).told = m.told := by
  unfold auditRefused
  split <;> simp

@[simp] theorem stateCb_auditRefused :
    (m.auditRefused clock fp requested).stateCb = m.stateCb := by
  unfold auditRefused
  split <;> rfl

end Primitives

/-- Sessions are found under their own id. -/
def Keyed (m : SessionManager) : Prop := ∀ id s, m.find id = some s → s.id = id

theorem keyed_step (hk : Keyed m) (op : Op) : Keyed (m.step clock op).2 := by
  intro id s hs
  rw [find_step] at hs
  split at hs
  · rename_i hsub
    cases he : m.effect op with
    | keep => simp [he, Effect.subject] at hsub
    | create i peer =>
      rw [he] at hs hsub
      obtain rfl := Option.some.inj hs
      exact Option.some.inj hsub
    | move i next =>
      rw [he] at hs
      obtain ⟨t, ht, rfl⟩ := Option.map_eq_some_iff.mp hs
      exact hk id t ht
    | activate i caps =>
      rw [he] at hs
      obtain ⟨t, ht, rfl⟩ := Option.map_eq_some_iff.mp hs
      exact hk id t ht
  · exact hk id s hs

theorem told_step (hk : Keyed m) (op : Op) : (m.step clock op).2.told =
    m.told ++ if m.stateCb then (m.effect op).moved.toList else [] := by
  have hx := step_exit clock m op
  generalize (m.step clock op).1 = r, (m.step clock op).2 = m' at hx
  cases hx with
  | beginDenied peer hd => simp [effect, hd, Effect.moved]
  | begun peer hd =>
    have hmoved : (m.effect (.beginSession peer)).moved = none := by
      simp only [effect]
      split <;> rfl
    rw [hmoved]
    simp
    rfl
  | authorized i requested s hs ha =>
    rw [effect_authorize (Option.isSome_of_eq_some hs) ha]
    simp [Effect.moved, Session.grant, hk i s hs]
  | started i s hs => simp [effect, hs, Effect.moved, hk i s hs]
  | completeDenied i fp s hs hd => simp [effect, hs, hd, Effect.moved, hk i s hs]
  | authorizeRefused i requested s hs ha => simp [effect, hs, ha, Effect.moved, hk i s hs]
  | denied i reason s hs => simp [effect, hs, Effect.moved, hk i s hs]
  | closed i s hs => simp [effect, hs, Effect.moved, hk i s hs]
  | firstContact i fp s hs hd hp =>
    simp [effect, hd, Effect.moved]
  | setCapabilityCeiling | allowPeer | denyPeer | setStateCallback | setAuditCallback =>
    simp [effect, Effect.moved]
    rfl
  | _ => simp_all [effect, Effect.moved]

/-- What is logged from `m` to `m'` is heard, if the callback is there. -/
structure Logs (m m' : SessionManager) : Prop where
  auditCb : m'.auditCb = m.auditCb
  heard : ∃ new, m'.audit = m.audit ++ new ∧ m'.heard = m.heard ++ if m.auditCb then new else []

namespace Logs
variable {m' m'' : SessionManager}

/-- A change that neither the log nor the callbacks see. -/
theorem quiet (hcb : m'.auditCb = m.auditCb) (ha : m'.audit = m.audit)
    (hh : m'.heard = m.heard) : Logs m m' :=
  ⟨hcb, [], by simp [ha], by simp [hh]⟩

theorem trans (hl : Logs m m') (hl' : Logs m' m'') : Logs m m'' := by
  obtain ⟨hcb, new, ha, hh⟩ := hl
  obtain ⟨hcb', new', ha', hh'⟩ := hl'
  refine ⟨hcb'.trans hcb, new ++ new', by simp [ha, ha'], ?_⟩
  rw [hh', hh, hcb]
  cases m.auditCb <;> simp

theorem record (hl : Logs m m') (fp : String) (ev : AuditEvent) (detail : String) :
    Logs m (m'.record clock fp ev detail) := by
  apply hl.trans
  refine ⟨rfl, _, rfl, ?_⟩
  unfold SessionManager.heard SessionManager.record
  cases m'.auditCb <;> simp [Notice.record]

theorem transition (hl : Logs m m') (id : UInt64) (s : Session) (next : SessionState) :
    Logs m (m'.transition id s next) := by
  apply hl.trans
  refine .quiet rfl rfl ?_
  unfold SessionManager.heard SessionManager.transition
  cases m'.stateCb <;> simp [Notice.record]

theorem store (hl : Logs m m') (id : UInt64) (s : Session) : Logs m (m'.store id s) :=
  hl.trans (.quiet rfl rfl rfl)

theorem emplace (hl : Logs m m') (id : UInt64) (s : Session) :
    Logs m (m'.takeId.emplace id s) := hl.trans (.quiet rfl rfl rfl)

theorem auditRefused (hl : Logs m m') (fp : String) (requested : Capabilities) :
    Logs m (m'.auditRefused clock fp requested) := by
  unfold SessionManager.auditRefused
  split
  · exact hl.record _ _ _
  · exact hl

end Logs

theorem heard_step (op : Op) : (m.step clock op).2.heard =
    m.heard ++ if m.auditCb then stamp clock m.audit.length (m.entries op) else [] := by
  by_cases hset : ∃ installed, op = .setAuditCallback installed
  · obtain ⟨installed, rfl⟩ := hset
    simp [entries, Op.target, stamp]
    rfl
  have hlogs : Logs m (m.step clock op).2 := by
    have hx := step_exit clock m op
    generalize (m.step clock op).1 = r, (m.step clock op).2 = m' at hx
    have hm : Logs m m := .quiet rfl rfl rfl
    cases hx with
    | setAuditCallback installed => exact absurd ⟨installed, rfl⟩ hset
    | beginDenied peer hd => exact hm.record _ _ _
    | begun peer hd => exact (hm.emplace _ _).record _ _ _
    | started i s hs => exact (hm.transition _ _ _).record _ _ _
    | completeDenied i fp s hs hd => exact ((hm.record _ _ _).record _ _ _).transition _ _ _
    | keyChanged i fp pin s hs hd hp hne => exact (hm.record _ _ _).record _ _ _
    | keyMatched i fp s hs hd hp => exact hm.record _ _ _
    | firstContact i fp s hs hd hp => exact (hm.record _ _ _).trans (.quiet rfl rfl rfl)
    | authorizeRefused i requested s hs ha => exact (hm.auditRefused _ _).transition _ _ _
    | authorized i requested s hs ha =>
      refine Logs.record (Logs.transition (Logs.record (Logs.record ?_ _ _ _) _ _ _) _ _ _) _ _ _
      exact (hm.auditRefused _ _).store _ _
    | denied i reason s hs => exact (hm.record _ _ _).transition _ _ _
    | checkFailed i needed s hs ha => exact hm.record _ _ _
    | closed i s hs => exact (hm.transition _ _ _).record _ _ _
    | _ => exact .quiet rfl rfl rfl
  obtain ⟨-, new, ha, hh⟩ := hlogs
  rw [audit_step, List.append_cancel_left_eq] at ha
  rw [hh, ha]

theorem keyed_run (hr : Run clock h m) : Keyed m := by
  induction hr with
  | nil => exact fun id s hs => by cases hs
  | snoc hr op ih => exact keyed_step ih op

theorem told_run (hr : Run clock h m) :
    m.told = (h.filter fun c => c.pre.stateCb).filterMap move := by
  induction hr with
  | nil => rfl
  | @snoc h m hr op ih =>
    rw [told_step (keyed_run hr), ih, List.filter_append, List.filterMap_append,
      List.append_cancel_left_eq]
    cases hcb : m.stateCb
    · simp [hcb]
    · cases hm : (m.effect op).moved <;> simp [hcb, move, hm]

theorem heard_run (hr : Run clock h m) :
    m.heard = (h.filter fun c => c.pre.auditCb).flatMap appended := by
  induction hr with
  | nil => rfl
  | @snoc h m hr op ih =>
    rw [heard_step, ih, List.filter_append, List.flatMap_append, List.append_cancel_left_eq,
      ← appended_call]
    cases hcb : m.auditCb <;> simp [hcb]

theorem audit_run (hr : Run clock h m) : m.audit = h.flatMap appended := by
  induction hr with
  | nil => rfl
  | snoc hr op ih =>
    rw [audit_step, ih, List.flatMap_append, ← ih, ← appended_call]
    simp

theorem known_step (hk : Keyed m) (op : Op) (id : UInt64) : (m.step clock op).2.known id =
    match (m.effect op).moved with
    | some (i, next) => if m.stateCb = true ∧ i = id then next else m.known id
    | none => m.known id := by
  unfold known
  rw [told_step hk]
  cases hm : (m.effect op).moved with
  | none => simp
  | some e =>
    obtain ⟨i, next⟩ := e
    cases hcb : m.stateCb
    · simp
    · by_cases hi : i = id <;> simp [hi]

/-- What an observer knows of the sessions whose moves it was told. -/
def Mirrors (h : List Call) (m : SessionManager) : Prop :=
  ∀ id, (∀ s, m.find id = some s → Followed h id → m.known id = s.state) ∧
    (m.find id = none → m.known id = .pending)

theorem followed_snoc {c : Call} {id : UInt64} : Followed (h ++ [c]) id ↔
    Followed h id ∧ ((move c).map Prod.fst = some id → c.pre.stateCb = true) := by
  simp [Followed, or_imp, forall_and]

theorem isSome_of_moved {i : UInt64} {next : SessionState}
    (he : (m.effect op).moved = some (i, next)) : (m.find i).isSome := by
  cases op <;> grind [effect, Effect.moved]

variable (clock) in
/-- A session that is moved has the state it was moved to. -/
theorem find_moved {i : UInt64} {next : SessionState}
    (he : (m.effect op).moved = some (i, next)) :
    ∃ s, (m.step clock op).2.find i = some s ∧ s.state = next := by
  obtain ⟨t, ht⟩ := Option.isSome_iff_exists.mp (isSome_of_moved he)
  rw [find_step]
  cases heff : m.effect op with
  | keep | create => rw [heff] at he; cases he
  | move j next' =>
    rw [heff] at he
    cases he
    exact ⟨t.setState next, (if_pos rfl).trans (by rw [Effect.act, ht]; rfl), rfl⟩
  | activate j caps =>
    rw [heff] at he
    cases he
    exact ⟨(t.grant caps).setState .active, (if_pos rfl).trans (by rw [Effect.act, ht]; rfl), rfl⟩

/-- A session that is not moved keeps its state, or is new and pending. -/
theorem unmoved_step {id : UInt64} {s : Session}
    (he : (m.effect op).moved.map Prod.fst ≠ some id) (hs : (m.step clock op).2.find id = some s) :
    (∃ t, m.find id = some t ∧ t.state = s.state) ∨ m.find id = none ∧ s.state = .pending := by
  rw [find_step] at hs
  split at hs
  · rename_i hsub
    cases heff : m.effect op with
    | keep =>
      rw [heff] at hsub
      cases hsub
    | create i peer =>
      rw [heff] at hs hsub
      obtain rfl := Option.some.inj hsub
      obtain ⟨-, -, -, hnone⟩ := effect_eq_create heff
      obtain rfl := Option.some.inj hs
      exact .inr ⟨hnone, rfl⟩
    | move | activate =>
      rw [heff] at he hsub
      exact absurd hsub he
  · exact .inl ⟨s, hs, rfl⟩

theorem find_none_of_step {id : UInt64} (hs : (m.step clock op).2.find id = none) :
    m.find id = none := by
  by_contra hne
  obtain ⟨t, ht⟩ := Option.ne_none_iff_exists'.mp hne
  obtain ⟨s, hs', -⟩ := session_step clock op ht
  rw [hs] at hs'
  cases hs'

theorem mirrors_step (hk : Keyed m) (hm : Mirrors h m) (op : Op) :
    Mirrors (h ++ [call (step clock) m op]) (m.step clock op).2 := by
  intro id
  obtain ⟨hfound, hnone⟩ := hm id
  rw [known_step hk]
  by_cases hmoved : (m.effect op).moved.map Prod.fst = some id
  · obtain ⟨⟨i, next⟩, he, rfl⟩ := Option.map_eq_some_iff.mp hmoved
    obtain ⟨t, ht, hstate⟩ := find_moved clock he
    simp only [he]
    constructor
    · intro s hs hf
      obtain rfl := find_unique hs ht
      have hcb : m.stateCb = true := (followed_snoc.mp hf).2 hmoved
      simp [hcb, hstate]
    · intro hs
      rw [ht] at hs
      cases hs
  · have hkeep : (match (m.effect op).moved with
        | some (i, next) => if m.stateCb = true ∧ i = id then next else m.known id
        | none => m.known id) = m.known id := by
      cases he : (m.effect op).moved with
      | none => rfl
      | some e =>
        have hne : e.1 ≠ id := by simpa [he] using hmoved
        simp [hne]
    rw [hkeep]
    constructor
    · intro s hs hf
      rcases unmoved_step hmoved hs with ⟨t, ht, hstate⟩ | ⟨hn, hstate⟩
      · rw [← hstate]
        exact hfound t ht (followed_snoc.mp hf).1
      · rw [hstate]
        exact hnone hn
    · intro hs
      exact hnone (find_none_of_step hs)

theorem mirrors_run (hr : Run clock h m) : Mirrors h m := by
  induction hr with
  | nil => exact fun id => ⟨fun s hs => (by cases hs), fun _ => rfl⟩
  | snoc hr op ih => exact mirrors_step (keyed_run hr) ih op

theorem observed {h : List Call} {m : SessionManager} (hr : Run clock h m) : Observed h m where
  told := told_run hr
  heard := heard_run hr
  states id s hs hf := (mirrors_run hr id).1 s hs hf
  records hall := by
    rw [heard_run hr, audit_run hr]
    clear hr
    induction h with
    | nil => rfl
    | cons c h ih =>
      have hh := ih fun d hd => hall d (List.mem_cons_of_mem c hd)
      cases hcb : c.pre.auditCb with
      | true => simp [hcb, hh]
      | false =>
        have hnil : appended c = [] := by
          by_contra hne
          rw [hall c List.mem_cons_self hne] at hcb
          cases hcb
        simp [hcb, hh, hnil]
  controlled hall hc := by
    obtain ⟨⟨id, s⟩, hmem, hs⟩ := List.any_eq_true.mp hc
    rw [Bool.and_eq_true, decide_eq_true_eq] at hs
    have hfind : m.find id = some s := Std.ExtTreeMap.mem_toList_iff_getElem?_eq_some.mp hmem
    exact ⟨id, ((mirrors_run hr id).1 s hfind (hall id)).trans hs.1⟩

/-- A guest that is let in and controls the machine, with the callbacks in place. -/
theorem observed_controlled : Observed (calls (step fun _ => 0) {} [.setStateCallback true,
    .setAuditCallback true, .setCapabilityCeiling .control, .beginSession guest,
    .onHandshakeStarted 1, .authorize 1 .control]) (final (step fun _ => 0) {}
      [.setStateCallback true, .setAuditCallback true, .setCapabilityCeiling .control,
        .beginSession guest, .onHandshakeStarted 1, .authorize 1 .control]) :=
  observed (run_ops _ _)

end SessionManager
end Redesk
