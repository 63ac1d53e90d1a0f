import Redesk.Ui.SessionController

/-! The session controller as the QML sees it: the outbound session beside the host's side of it,
and the properties that are read again when their signals are emitted. -/
namespace Redesk.Ui
open Machine

/-- The host's side: the indicator, the capabilities and the unattended access. -/
structure Host where
  beingControlled : Bool := false
  controllerName : String := ""
  controlAllowed : Bool := true
  clipboardAllowed : Bool := true
  fileTransferAllowed : Bool := false
  audioAllowed : Bool := false
  privacyScreen : Bool := false
  unattendedConfigured : Bool := false
  deriving DecidableEq, Repr

inductive Capability where
  | control | clipboard | fileTransfer | audio | privacyScreen
  deriving DecidableEq, Repr

namespace Host

def allowed (h : Host) : Capability → Bool
  | .control => h.controlAllowed
  | .clipboard => h.clipboardAllowed
  | .fileTransfer => h.fileTransferAllowed
  | .audio => h.audioAllowed
  | .privacyScreen => h.privacyScreen

inductive Signal where
  | beingControlledChanged | capabilitiesChanged | unattendedConfiguredChanged
  | fullscreenRequested (on : Bool)
  deriving DecidableEq, Repr

def setUnattendedPassword (h : Host) (password : String) : List Signal × Host :=
  let nowSet := !(trimmed password).isEmpty
  if h.unattendedConfigured ≠ nowSet then
    ([.unattendedConfiguredChanged], { h with unattendedConfigured := nowSet })
  else ([], h)

def clearUnattendedPassword (h : Host) : List Signal × Host :=
  if !h.unattendedConfigured then ([], h)
  else ([.unattendedConfiguredChanged], { h with unattendedConfigured := false })

def acceptIncoming (h : Host) : List Signal × Host :=
  let h := { h with beingControlled := true }
  let h := if h.controllerName.isEmpty then { h with controllerName := "Remote operator" } else h
  ([.beingControlledChanged], h)

def rejectIncoming (h : Host) : List Signal × Host :=
  ([.beingControlledChanged], { h with beingControlled := false, controllerName := "" })

/-- The setters of the capabilities, each of a field of its own. -/
def setCapability (read : Host → Bool) (write : Host → Bool → Host) (h : Host) (v : Bool) :
    List Signal × Host :=
  if read h = v then ([], h) else ([.capabilitiesChanged], write h v)

def setControlAllowed : Host → Bool → List Signal × Host :=
  setCapability controlAllowed fun h v => { h with controlAllowed := v }

def setClipboardAllowed : Host → Bool → List Signal × Host :=
  setCapability clipboardAllowed fun h v => { h with clipboardAllowed := v }

def setFileTransferAllowed : Host → Bool → List Signal × Host :=
  setCapability fileTransferAllowed fun h v => { h with fileTransferAllowed := v }

def setAudioAllowed : Host → Bool → List Signal × Host :=
  setCapability audioAllowed fun h v => { h with audioAllowed := v }

def setPrivacyScreen : Host → Bool → List Signal × Host :=
  setCapability privacyScreen fun h v => { h with privacyScreen := v }

inductive Op where
  | setUnattendedPassword (password : String)
  | clearUnattendedPassword
  | acceptIncoming
  | rejectIncoming
  | setControlAllowed (v : Bool)
  | setClipboardAllowed (v : Bool)
  | setFileTransferAllowed (v : Bool)
  | setAudioAllowed (v : Bool)
  | setPrivacyScreen (v : Bool)
  | switchMonitor (index : ℤ)
  | requestFullscreen (on : Bool)
  deriving DecidableEq, Repr

/-- Whether the call accepts or rejects an incoming session. -/
def Op.answer : Op → Option Bool
  | .acceptIncoming => some true
  | .rejectIncoming => some false
  | _ => none

/-- Whether the call leaves the unattended access configured. -/
def Op.configures : Op → Option Bool
  | .setUnattendedPassword password => some !(trimmed password).isEmpty
  | .clearUnattendedPassword => some false
  | _ => none

/-- What the call sets a capability to. -/
def Op.sets (k : Capability) : Op → Option Bool
  | .setControlAllowed v => if k = .control then some v else none
  | .setClipboardAllowed v => if k = .clipboard then some v else none
  | .setFileTransferAllowed v => if k = .fileTransfer then some v else none
  | .setAudioAllowed v => if k = .audio then some v else none
  | .setPrivacyScreen v => if k = .privacyScreen then some v else none
  | _ => none

def step (h : Host) : Op → List Signal × Host
  | .setUnattendedPassword password => h.setUnattendedPassword password
  | .clearUnattendedPassword => h.clearUnattendedPassword
  | .acceptIncoming => h.acceptIncoming
  | .rejectIncoming => h.rejectIncoming
  | .setControlAllowed v => h.setControlAllowed v
  | .setClipboardAllowed v => h.setClipboardAllowed v
  | .setFileTransferAllowed v => h.setFileTransferAllowed v
  | .setAudioAllowed v => h.setAudioAllowed v
  | .setPrivacyScreen v => h.setPrivacyScreen v
  | .switchMonitor _ => ([], h)
  | .requestFullscreen on => ([.fullscreenRequested on], h)

end Host

/-- The whole object. -/
structure Controller where
  session : SessionController := {}
  host : Host := {}
  deriving DecidableEq, Repr

namespace Controller

inductive Op where
  | session (e : SessionController.Event)
  | host (op : Host.Op)
  deriving DecidableEq, Repr

inductive Signal where
  | session (s : SessionController.Signal)
  | host (s : Host.Signal)
  deriving DecidableEq, Repr

def step (c : Controller) : Op → List Signal × Controller
  | .session e =>
    ((SessionController.step c.session e).1.map .session,
      { c with session := (SessionController.step c.session e).2 })
  | .host op => ((c.host.step op).1.map .host, { c with host := (c.host.step op).2 })

abbrev Call := Machine.Call Controller Op (List Signal)

abbrev Run : Controller → List Call → Controller → Prop := Machine.Run step

/-- The properties with a signal. -/
structure View where
  state : SessionController.SessionState
  remoteId : String
  statusText : String
  pinRequired : Bool
  beingControlled : Bool
  controllerName : String
  allowed : Capability → Bool
  unattendedConfigured : Bool

def view (c : Controller) : View where
  state := c.session.state
  remoteId := c.session.remoteId
  statusText := c.session.statusText
  pinRequired := c.session.pinRequired
  beingControlled := c.host.beingControlled
  controllerName := c.host.controllerName
  allowed := c.host.allowed
  unattendedConfigured := c.host.unattendedConfigured

/-- What a binding does on a signal: it reads the properties that have it. A call sets a property
once, before its signal, so that it is the value after the call that is read. -/
def View.refresh (now : View) (v : View) : Signal → View
  | .session .stateChanged => { v with state := now.state }
  | .session .remoteIdChanged => { v with remoteId := now.remoteId }
  | .session .statusTextChanged => { v with statusText := now.statusText }
  | .session .pinRequiredChanged => { v with pinRequired := now.pinRequired }
  | .session .sessionStarted | .session .sessionEnded => v
  | .host .beingControlledChanged =>
    { v with beingControlled := now.beingControlled, controllerName := now.controllerName }
  | .host .capabilitiesChanged => { v with allowed := now.allowed }
  | .host .unattendedConfiguredChanged =>
    { v with unattendedConfigured := now.unattendedConfigured }
  | .host (.fullscreenRequested _) => v

/-- What the QML shows after a call. -/
def View.watch (v : View) (c : Call) : View := c.res.foldl (View.refresh c.post.view) v

/-- The events that reach the outbound session. -/
def sessionCall (c : Call) : Option SessionController.Call :=
  match c.op with
  | .session e => some (call SessionController.step c.pre.session e)
  | .host _ => none

/-- The host's operation that a call makes. -/
def hostOp (c : Call) : Option Host.Op :=
  match c.op with
  | .session _ => none
  | .host op => some op

/-- What the QML shows is what the object holds, in every run. -/
structure Shown (h : List Call) (c : Controller) : Prop where
  view : h.foldl View.watch (Controller.view {}) = c.view
  /-- The host's side does not touch the outbound session. -/
  session : SessionController.Run {} (h.filterMap sessionCall) c.session
  beingControlled : c.host.beingControlled =
    (latest (fun d => (hostOp d).bind Host.Op.answer) h).getD false
  /-- The indicator names somebody whenever it is on. -/
  named : c.host.controllerName = if c.host.beingControlled then "Remote operator" else ""
  allowed : ∀ k, c.host.allowed k =
    (latest (fun d => (hostOp d).bind (Host.Op.sets k)) h).getD (({} : Host).allowed k)
  unattended : c.host.unattendedConfigured =
    (latest (fun d => (hostOp d).bind Host.Op.configures) h).getD false
  /-- The pages change in the state that they are for. -/
  pages : ∀ d ∈ h, (.session .sessionStarted ∈ d.res → d.post.session.state = .connected) ∧
    (.session .sessionEnded ∈ d.res → d.post.session.state = .idle)

end Controller

namespace SessionController
variable {c c' c'' : SessionController} {e : Event} {s : SessionState} {text : String}
  {l l' : List Signal}

/-- A property that differs after a call has had its signal in it. -/
structure Announces (c : SessionController) (l : List Signal) (c' : SessionController) : Prop where
  state : c'.state = c.state ∨ .stateChanged ∈ l
  remoteId : c'.remoteId = c.remoteId ∨ .remoteIdChanged ∈ l
  statusText : c'.statusText = c.statusText ∨ .statusTextChanged ∈ l
  pinRequired : c'.pinRequired = c.pinRequired ∨ .pinRequiredChanged ∈ l

theorem announces_setState : Announces c (c.setState s).1 (c.setState s).2 := by
  unfold setState
  split <;> constructor <;> simp

theorem announces_setStatusText :
    Announces c (c.setStatusText text).1 (c.setStatusText text).2 := by
  unfold setStatusText
  split <;> constructor <;> simp

theorem Announces.trans (h : Announces c l c') (h' : Announces c' l' c'') :
    Announces c (l ++ l') c'' := by
  constructor
  · rcases h'.state with heq | hm
    · exact heq ▸ h.state.imp_right (List.mem_append_left _)
    · exact .inr (List.mem_append_right _ hm)
  · rcases h'.remoteId with heq | hm
    · exact heq ▸ h.remoteId.imp_right (List.mem_append_left _)
    · exact .inr (List.mem_append_right _ hm)
  · rcases h'.statusText with heq | hm
    · exact heq ▸ h.statusText.imp_right (List.mem_append_left _)
    · exact .inr (List.mem_append_right _ hm)
  · rcases h'.pinRequired with heq | hm
    · exact heq ▸ h.pinRequired.imp_right (List.mem_append_left _)
    · exact .inr (List.mem_append_right _ hm)

theorem announces_enter (s : SessionState) (text : String) :
    Announces c (c.enter s text).1 (c.enter s text).2 :=
  announces_setState.trans announces_setStatusText

theorem announces_refl : Announces c l c := ⟨.inl rfl, .inl rfl, .inl rfl, .inl rfl⟩

theorem announces_remoteId (id : String) :
    Announces c [.remoteIdChanged] { c with remoteId := id } := by
  constructor <;> simp

theorem announces_pinRequired (required : Bool) :
    Announces c [.pinRequiredChanged] { c with pinRequired := required } := by
  constructor <;> simp

/-- The timers are no property. -/
theorem Announces.timers (h : Announces c l c') (timers timers' : List Timer) :
    Announces { c with timers } l { c' with timers := timers' } :=
  ⟨h.state, h.remoteId, h.statusText, h.pinRequired⟩

theorem announces_onTimer (c : SessionController) (t : Timer) :
    Announces c (c.onTimer t).1 (c.onTimer t).2 := by
  cases t with
  | resolved =>
    simp only [onTimer]
    split
    · exact announces_refl
    · exact (announces_pinRequired true).trans (announces_enter _ _)
  | verified =>
    have h := (announces_pinRequired (c := c) false).trans
      (announces_enter .connecting "Connecting…")
    exact h.timers c.timers _
  | established =>
    have h := announces_enter (c := c) .connected ("Connected to " ++ c.remoteId)
    exact h.trans announces_refl

theorem announces_step (c : SessionController) (e : Event) :
    Announces c (step c e).1 (step c e).2 := by
  cases e with
  | connectToId id =>
    simp only [step, connectToId]
    split
    · exact announces_setStatusText
    · split
      · exact announces_refl
      · have h := (announces_remoteId (c := c) (trimmed id)).trans
          (announces_enter .resolving ("Resolving " ++ trimmed id ++ "…"))
        exact h.timers c.timers _
  | enterPin pin =>
    simp only [step, enterPin]
    split
    · exact announces_refl
    · split
      · exact announces_setStatusText
      · exact announces_setStatusText.timers c.timers _
  | disconnect =>
    simp only [step, disconnect]
    split
    · exact announces_refl
    · exact ((announces_pinRequired false).trans (announces_enter _ _)).trans announces_refl
  | expire t =>
    by_cases hm : t ∈ c.timers
    · rw [step_expire_of_mem hm]
      have h := announces_onTimer { c with timers := c.timers.erase t } t
      exact h.timers c.timers _
    · rw [step_expire_of_notMem hm]
      exact announces_refl
  | serviceError reason => exact announces_setStatusText

theorem sessionEnded_notMem_setStatusText : .sessionEnded ∉ (c.setStatusText text).1 := by
  unfold setStatusText
  split <;> simp

theorem sessionEnded_notMem_enter : .sessionEnded ∉ (c.enter s text).1 := by
  have hstate : .sessionEnded ∉ (c.setState s).1 := by
    unfold setState
    split <;> simp
  simpa [enter] using ⟨hstate, sessionEnded_notMem_setStatusText⟩

theorem sessionEnded_notMem_onTimer (t : Timer) : .sessionEnded ∉ (c.onTimer t).1 := by
  cases t with
  | resolved =>
    simp only [onTimer]
    split
    · simp
    · simpa using sessionEnded_notMem_enter
  | verified => simpa [onTimer] using sessionEnded_notMem_enter
  | established => simpa [onTimer] using sessionEnded_notMem_enter

/-- A session that ends was disconnected. -/
theorem disconnects_of_sessionEnded (h : .sessionEnded ∈ (step c e).1) : e = .disconnect := by
  cases e with
  | connectToId id =>
    simp only [step, connectToId] at h
    split at h
    · exact absurd h sessionEnded_notMem_setStatusText
    · split at h
      · cases h
      · exact absurd ((List.mem_cons.mp h).resolve_left (by simp)) sessionEnded_notMem_enter
  | enterPin pin =>
    simp only [step, enterPin] at h
    split at h
    · cases h
    · split at h
      · exact absurd h sessionEnded_notMem_setStatusText
      · exact absurd h sessionEnded_notMem_setStatusText
  | disconnect => rfl
  | expire t =>
    by_cases hm : t ∈ c.timers
    · rw [step_expire_of_mem hm] at h
      exact absurd h (sessionEnded_notMem_onTimer t)
    · rw [step_expire_of_notMem hm] at h
      cases h
  | serviceError reason => exact absurd h sessionEnded_notMem_setStatusText

/-- A session that starts or ends does so in the state that is left. -/
theorem pages_step (c : SessionController) (e : Event) :
    (.sessionStarted ∈ (step c e).1 → (step c e).2.state = .connected) ∧
      (.sessionEnded ∈ (step c e).1 → (step c e).2.state = .idle) := by
  constructor
  · intro hm
    have hexp : Expires .established (call step c e) := by
      by_contra hexp
      exact List.count_eq_zero.mp (count_sessionStarted_eq_zero hexp) hm
    obtain ⟨hop, htimer⟩ := hexp
    obtain rfl : e = .expire .established := hop
    exact state_of_expires_established htimer
  · intro hm
    obtain rfl := disconnects_of_sessionEnded hm
    exact state_of_disconnects

end SessionController

namespace Host
variable {h : Host} {op : Op}

/-- What a call leaves, whether it announces it or not. -/
def Op.leaves (h : Host) : Op → Host
  | .setUnattendedPassword password =>
    { h with unattendedConfigured := !(trimmed password).isEmpty }
  | .clearUnattendedPassword => { h with unattendedConfigured := false }
  | .acceptIncoming =>
    { h with
      beingControlled := true
      controllerName := if h.controllerName = "" then "Remote operator" else h.controllerName }
  | .rejectIncoming => { h with beingControlled := false, controllerName := "" }
  | .setControlAllowed v => { h with controlAllowed := v }
  | .setClipboardAllowed v => { h with clipboardAllowed := v }
  | .setFileTransferAllowed v => { h with fileTransferAllowed := v }
  | .setAudioAllowed v => { h with audioAllowed := v }
  | .setPrivacyScreen v => { h with privacyScreen := v }
  | .switchMonitor _ | .requestFullscreen _ => h

theorem setCapability_snd {read : Host → Bool} {write : Host → Bool → Host} {v : Bool}
    (hread : read h = v → write h v = h) : (setCapability read write h v).2 = write h v := by
  unfold setCapability
  split
  · rename_i heq
    exact (hread heq).symm
  · rfl

theorem step_snd (h : Host) (op : Op) : (h.step op).2 = op.leaves h := by
  cases op with
  | setUnattendedPassword password =>
    simp only [step, setUnattendedPassword, Op.leaves]
    split
    · rfl
    · rename_i heq
      rw [← not_not.mp heq]
  | clearUnattendedPassword =>
    simp only [step, clearUnattendedPassword, Op.leaves]
    split
    · rename_i hset
      rw [Bool.not_eq_true'] at hset
      rw [← hset]
    · rfl
  | acceptIncoming =>
    simp only [step, acceptIncoming, Op.leaves, String.isEmpty_iff]
    split <;> rfl
  | setControlAllowed v | setClipboardAllowed v | setFileTransferAllowed v | setAudioAllowed v
  | setPrivacyScreen v =>
    apply setCapability_snd
    rintro rfl
    rfl
  | rejectIncoming | switchMonitor | requestFullscreen => rfl

theorem allowed_step (k : Capability) :
    (h.step op).2.allowed k = (op.sets k).getD (h.allowed k) := by
  rw [step_snd]
  cases op <;> cases k <;> rfl

theorem beingControlled_step :
    (h.step op).2.beingControlled = op.answer.getD h.beingControlled := by
  rw [step_snd]
  cases op <;> rfl

theorem unattended_step :
    (h.step op).2.unattendedConfigured = op.configures.getD h.unattendedConfigured := by
  rw [step_snd]
  cases op <;> rfl

/-- The indicator names somebody whenever it is on. -/
def Named (h : Host) : Prop :=
  h.controllerName = if h.beingControlled then "Remote operator" else ""

theorem named_step (hn : h.Named) : (h.step op).2.Named := by
  unfold Named at hn ⊢
  rw [step_snd]
  cases op with
  | acceptIncoming =>
    simp only [Op.leaves, if_true, hn]
    cases h.beingControlled <;> decide
  | rejectIncoming => rfl
  | _ => exact hn

/-- A property that differs after a call has had its signal in it. -/
structure Announces (h : Host) (l : List Signal) (h' : Host) : Prop where
  controller : (h'.beingControlled = h.beingControlled ∧ h'.controllerName = h.controllerName) ∨
    .beingControlledChanged ∈ l
  allowed : h'.allowed = h.allowed ∨ .capabilitiesChanged ∈ l
  unattended : h'.unattendedConfigured = h.unattendedConfigured ∨ .unattendedConfiguredChanged ∈ l

theorem announces_setCapability {read : Host → Bool} {write : Host → Bool → Host} {v : Bool}
    (hread : read h = v → write h v = h)
    (hcontroller : (write h v).beingControlled = h.beingControlled ∧
      (write h v).controllerName = h.controllerName)
    (hunattended : (write h v).unattendedConfigured = h.unattendedConfigured) :
    Announces h (setCapability read write h v).1 (write h v) := by
  refine ⟨.inl hcontroller, ?_, .inl hunattended⟩
  unfold setCapability
  split
  · rename_i heq
    rw [hread heq]
    exact .inl rfl
  · exact .inr (by simp)

theorem announces_step (h : Host) (op : Op) : Announces h (h.step op).1 (h.step op).2 := by
  rw [step_snd]
  cases op with
  | setUnattendedPassword password =>
    refine ⟨.inl ⟨rfl, rfl⟩, .inl rfl, ?_⟩
    simp only [step, setUnattendedPassword, Op.leaves]
    split
    · exact .inr (by simp)
    · rename_i heq
      exact .inl (not_not.mp heq).symm
  | clearUnattendedPassword =>
    refine ⟨.inl ⟨rfl, rfl⟩, .inl rfl, ?_⟩
    simp only [step, clearUnattendedPassword, Op.leaves]
    cases h.unattendedConfigured <;> simp
  | acceptIncoming => exact ⟨.inr (by simp [step, acceptIncoming]), .inl rfl, .inl rfl⟩
  | rejectIncoming => exact ⟨.inr (by simp [step, rejectIncoming]), .inl rfl, .inl rfl⟩
  | setControlAllowed v | setClipboardAllowed v | setFileTransferAllowed v | setAudioAllowed v
  | setPrivacyScreen v =>
    refine announces_setCapability ?_ ⟨rfl, rfl⟩ rfl
    rintro rfl
    rfl
  | switchMonitor | requestFullscreen => exact ⟨.inl ⟨rfl, rfl⟩, .inl rfl, .inl rfl⟩

end Host

namespace Controller
variable {c : Controller} {h : List Call} {v now : View} {l : List Signal}

/-- A property is up to date, or it is going to be read. -/
structure View.Due (now v : View) (l : List Signal) : Prop where
  state : v.state = now.state ∨ .session .stateChanged ∈ l
  remoteId : v.remoteId = now.remoteId ∨ .session .remoteIdChanged ∈ l
  statusText : v.statusText = now.statusText ∨ .session .statusTextChanged ∈ l
  pinRequired : v.pinRequired = now.pinRequired ∨ .session .pinRequiredChanged ∈ l
  controller : v.beingControlled = now.beingControlled ∧ v.controllerName = now.controllerName ∨
    .host .beingControlledChanged ∈ l
  allowed : v.allowed = now.allowed ∨ .host .capabilitiesChanged ∈ l
  unattended : v.unattendedConfigured = now.unattendedConfigured ∨
    .host .unattendedConfiguredChanged ∈ l

theorem View.Due.refresh {s : Signal} (hd : Due now v (s :: l)) : Due now (now.refresh v s) l := by
  obtain ⟨hstate, hremote, htext, hpin, hcontroller, hallowed, hunattended⟩ := hd
  rcases s with s | s <;> cases s <;> constructor <;> simp_all [View.refresh]

/-- Reading again what was announced brings every property up to date. -/
theorem View.Due.foldl (hd : Due now v l) : l.foldl (View.refresh now) v = now := by
  induction l generalizing v with
  | nil =>
    obtain ⟨hstate, hremote, htext, hpin, hcontroller, hallowed, hunattended⟩ := hd
    simp only [List.not_mem_nil, or_false] at *
    obtain ⟨v₁, v₂, v₃, v₄, v₅, v₆, v₇, v₈⟩ := v
    simp_all
  | cons s l ih => exact ih hd.refresh

theorem due_step (c : Controller) (op : Op) :
    View.Due (step c op).2.view c.view (step c op).1 := by
  cases op with
  | session e =>
    obtain ⟨hstate, hremote, htext, hpin⟩ := SessionController.announces_step c.session e
    refine ⟨?_, ?_, ?_, ?_, .inl ⟨rfl, rfl⟩, .inl rfl, .inl rfl⟩
    · exact hstate.imp Eq.symm (List.mem_map_of_mem (f := Signal.session))
    · exact hremote.imp Eq.symm (List.mem_map_of_mem (f := Signal.session))
    · exact htext.imp Eq.symm (List.mem_map_of_mem (f := Signal.session))
    · exact hpin.imp Eq.symm (List.mem_map_of_mem (f := Signal.session))
  | host op =>
    obtain ⟨hcontroller, hallowed, hunattended⟩ := Host.announces_step c.host op
    refine ⟨.inl rfl, .inl rfl, .inl rfl, .inl rfl, ?_, ?_, ?_⟩
    · exact hcontroller.imp (fun heq => ⟨heq.1.symm, heq.2.symm⟩)
        (List.mem_map_of_mem (f := Signal.host))
    · exact hallowed.imp Eq.symm (List.mem_map_of_mem (f := Signal.host))
    · exact hunattended.imp Eq.symm (List.mem_map_of_mem (f := Signal.host))

theorem view_run (hr : Run {} h c) : h.foldl View.watch (Controller.view {}) = c.view := by
  induction hr with
  | nil => rfl
  | @snoc h c hr op ih =>
    rw [List.foldl_append, ih]
    exact (due_step c op).foldl

theorem session_run (hr : Run {} h c) :
    SessionController.Run {} (h.filterMap sessionCall) c.session := by
  induction hr with
  | nil => exact .nil
  | snoc hr op ih =>
    rw [List.filterMap_append]
    cases op with
    | session e => exact ih.snoc e
    | host op =>
      rw [List.filterMap_cons_none rfl, List.filterMap_nil, List.append_nil]
      exact ih

/-- A value that a call of the host's side sets, or leaves, is the one set last. -/
theorem latest_run {α : Type} (hr : Run {} h c) (value : Host → α) (sets : Host.Op → Option α)
    (hstep : ∀ h op, value (Host.step h op).2 = (sets op).getD (value h)) :
    value c.host = (latest (fun d => (hostOp d).bind sets) h).getD (value {}) := by
  induction hr with
  | nil => rfl
  | snoc hr op ih =>
    rw [latest_snoc]
    cases op with
    | session e => exact ih
    | host op =>
      refine (hstep _ op).trans ?_
      rw [ih]
      cases hset : sets op <;> simp [hostOp, hset]

theorem named_run (hr : Run {} h c) : c.host.Named := by
  induction hr with
  | nil => rfl
  | snoc hr op ih =>
    cases op with
    | session e => exact ih
    | host op => exact Host.named_step ih

theorem pages_run (hr : Run {} h c) : ∀ d ∈ h,
    (.session .sessionStarted ∈ d.res → d.post.session.state = .connected) ∧
      (.session .sessionEnded ∈ d.res → d.post.session.state = .idle) := by
  intro d hd
  rw [hr.call_of_mem hd]
  obtain ⟨pre, op, -, -⟩ := d
  cases op with
  | session e =>
    have hpages := SessionController.pages_step pre.session e
    simpa [step] using hpages
  | host op => simp [step]

theorem shown {h : List Call} {c : Controller} (hr : Run {} h c) : Shown h c where
  view := view_run hr
  session := session_run hr
  beingControlled := latest_run hr Host.beingControlled _ fun _ _ => Host.beingControlled_step
  named := named_run hr
  allowed k := latest_run hr (Host.allowed · k) _ fun _ _ => Host.allowed_step k
  unattended := latest_run hr Host.unattendedConfigured _ fun _ _ => Host.unattended_step
  pages := pages_run hr

/-- A session with an incoming one in the middle of it. -/
theorem shown_interleaved : Shown (calls step {} [.session (.connectToId "1"),
    .host .acceptIncoming, .session (.expire .resolved), .host (.setAudioAllowed true),
    .session .disconnect]) (final step {} [.session (.connectToId "1"), .host .acceptIncoming,
      .session (.expire .resolved), .host (.setAudioAllowed true), .session .disconnect]) :=
  shown (run_calls _ _)

end Controller
end Redesk.Ui
