import Redesk.Common.Types
import Redesk.Machine.Past

/-! The session controller of the user interface: one outbound session, which the user starts and
ends, and single-shot timers that outlive the attempt they were scheduled for. -/
namespace Redesk.Ui
open Machine

/-- White space as `QChar::isSpace` has it. -/
def isSpace (c : Char) : Bool :=
  let u := c.toNat
  u = 0x20 || (0x09 ≤ u && u ≤ 0x0D) || u = 0x85 || u = 0xA0 || u = 0x1680 ||
    (0x2000 ≤ u && u ≤ 0x200A) || u = 0x2028 || u = 0x2029 || u = 0x202F || u = 0x205F || u = 0x3000

/-- `QString::trimmed` -/
def trimmed (s : String) : String :=
  String.ofList ((s.toList.dropWhile isSpace).reverse.dropWhile isSpace).reverse

namespace SessionController

inductive SessionState where
  | idle | resolving | authenticating | connecting | connected | failed
  deriving DecidableEq, Repr

/-- The timers by what happens when they expire: after 450 ms, 350 ms and 500 ms. -/
inductive Timer where
  | resolved | verified | established
  deriving DecidableEq, Repr

inductive Signal where
  | stateChanged | remoteIdChanged | statusTextChanged | pinRequiredChanged
  | sessionStarted | sessionEnded
  deriving DecidableEq, Repr

end SessionController

structure SessionController where
  state : SessionController.SessionState := .idle
  remoteId : String := ""
  statusText : String := "Ready"
  pinRequired : Bool := false
  /-- The timers that are scheduled. -/
  timers : List SessionController.Timer := []
  deriving DecidableEq, Repr

namespace SessionController

def setState (c : SessionController) (s : SessionState) : List Signal × SessionController :=
  if c.state = s then ([], c) else ([.stateChanged], { c with state := s })

def setStatusText (c : SessionController) (t : String) : List Signal × SessionController :=
  if c.statusText = t then ([], c) else ([.statusTextChanged], { c with statusText := t })

/-- A new state with its status text. -/
def enter (c : SessionController) (s : SessionState) (t : String) :
    List Signal × SessionController :=
  let (e, c) := c.setState s
  let (e', c) := c.setStatusText t
  (e ++ e', c)

def connectToId (c : SessionController) (id : String) : List Signal × SessionController :=
  if (trimmed id).isEmpty then c.setStatusText "Enter a REDesk ID"
  else if c.state ≠ .idle ∧ c.state ≠ .failed then ([], c)
  else
    let c := { c with remoteId := trimmed id }
    let (e, c) := c.enter .resolving ("Resolving " ++ trimmed id ++ "…")
    (.remoteIdChanged :: e, { c with timers := .resolved :: c.timers })

def enterPin (c : SessionController) (pin : String) : List Signal × SessionController :=
  if c.state ≠ .authenticating then ([], c)
  else if (trimmed pin).isEmpty then c.setStatusText "PIN required"
  else
    let (e, c) := c.setStatusText "Verifying…"
    (e, { c with timers := .verified :: c.timers })

def disconnect (c : SessionController) : List Signal × SessionController :=
  if c.state = .idle then ([], c)
  else
    let (e, c) := enter { c with pinRequired := false } .idle "Ready"
    (.pinRequiredChanged :: e ++ [.sessionEnded], c)

/-- The handler of a timer. Only the first one looks at the state. -/
def onTimer (c : SessionController) : Timer → List Signal × SessionController
  | .resolved =>
    if c.state ≠ .resolving then ([], c)
    else
      let (e, c) := enter { c with pinRequired := true } .authenticating
        "Enter the session PIN shown on the remote machine"
      (.pinRequiredChanged :: e, c)
  | .verified =>
    let (e, c) := enter { c with pinRequired := false } .connecting "Connecting…"
    (.pinRequiredChanged :: e, { c with timers := .established :: c.timers })
  | .established =>
    let (e, c) := c.enter .connected ("Connected to " ++ c.remoteId)
    (e ++ [.sessionStarted], c)

/-- A timer expires once; one that is not scheduled does nothing. -/
def expire (c : SessionController) (t : Timer) : List Signal × SessionController :=
  if t ∈ c.timers then onTimer { c with timers := c.timers.erase t } t else ([], c)

inductive Event where
  | connectToId (id : String)
  | enterPin (pin : String)
  | disconnect
  | expire (t : Timer)
  | serviceError (reason : String)
  deriving DecidableEq, Repr

def step (c : SessionController) : Event → List Signal × SessionController
  | .connectToId id => c.connectToId id
  | .enterPin pin => c.enterPin pin
  | .disconnect => c.disconnect
  | .expire t => c.expire t
  | .serviceError reason => c.setStatusText ("Service unavailable: " ++ reason)

abbrev Call := Machine.Call SessionController Event (List Signal)

abbrev Run : SessionController → List Call → SessionController → Prop := Machine.Run step

variable {c : SessionController} {e : Event} {s : SessionState} {t : Timer} {text : String}

theorem step_expire_of_mem (h : t ∈ c.timers) :
    step c (.expire t) = onTimer { c with timers := c.timers.erase t } t := if_pos h

theorem step_expire_of_notMem (h : t ∉ c.timers) : step c (.expire t) = ([], c) := if_neg h

@[simp] theorem setState_state : (c.setState s).2.state = s := by
  unfold setState
  split
  · assumption
  · rfl

@[simp] theorem setState_timers : (c.setState s).2.timers = c.timers := by
  unfold setState
  split <;> rfl

@[simp] theorem setStatusText_state : (c.setStatusText text).2.state = c.state := by
  unfold setStatusText
  split <;> rfl

@[simp] theorem setStatusText_timers : (c.setStatusText text).2.timers = c.timers := by
  unfold setStatusText
  split <;> rfl

@[simp] theorem enter_state : (c.enter s text).2.state = s := by
  simp [enter]

@[simp] theorem enter_timers : (c.enter s text).2.timers = c.timers := by
  simp [enter]

@[simp] theorem count_setStatusText : (c.setStatusText text).1.count .sessionStarted = 0 := by
  unfold setStatusText
  split <;> rfl

@[simp] theorem count_enter : (c.enter s text).1.count .sessionStarted = 0 := by
  have hstate : (c.setState s).1.count .sessionStarted = 0 := by
    unfold setState
    split <;> rfl
  simp [enter, hstate]

/-- The call is a request for a session that the controller accepts. -/
def Accepts (d : Call) : Prop :=
  ∃ id, d.op = .connectToId id ∧ (trimmed id).isEmpty = false ∧
    (d.pre.state = .idle ∨ d.pre.state = .failed)

def Disconnects (d : Call) : Prop := d.op = .disconnect

/-- The call is the expiry of a timer that is scheduled. -/
def Expires (t : Timer) (d : Call) : Prop := d.op = .expire t ∧ t ∈ d.pre.timers

theorem not_accepts_of_disconnects {d : Call} (h : Disconnects d) : ¬ Accepts d := by
  rintro ⟨id, hop, -⟩
  cases h.symm.trans hop

theorem not_accepts_of_expires {d : Call} (h : Expires t d) : ¬ Accepts d := by
  rintro ⟨id, hop, -⟩
  cases h.1.symm.trans hop

theorem state_of_accepts (h : Accepts (call step c e)) : (step c e).2.state = .resolving := by
  obtain ⟨id, hop, hid, hstate⟩ := h
  rw [call_op] at hop
  subst hop
  have hfree : ¬ (c.state ≠ .idle ∧ c.state ≠ .failed) := by
    rcases hstate with hstate | hstate <;> simp [show c.state = _ from hstate]
  simp [step, connectToId, hid, hfree]

theorem state_of_disconnects : (step c .disconnect).2.state = .idle := by
  simp only [step, disconnect]
  split
  · assumption
  · simp

theorem state_of_expires_verified (h : .verified ∈ c.timers) :
    (step c (.expire .verified)).2.state = .connecting := by
  rw [step_expire_of_mem h]
  exact enter_state

theorem state_of_expires_established (h : .established ∈ c.timers) :
    (step c (.expire .established)).2.state = .connected := by
  rw [step_expire_of_mem h]
  exact enter_state

/-- Any other call leaves the state, or goes on from resolving to authenticating. -/
theorem state_of_quiet (ha : ¬ Accepts (call step c e)) (hd : ¬ Disconnects (call step c e))
    (ht : ∀ t, t ≠ .resolved → ¬ Expires t (call step c e)) : (step c e).2.state = c.state ∨
      c.state = .resolving ∧ (step c e).2.state = .authenticating := by
  cases e with
  | connectToId id =>
    simp only [step, connectToId]
    split
    · exact .inl setStatusText_state
    · rename_i hid
      split
      · exact .inl rfl
      · rename_i hfree
        refine absurd ⟨id, rfl, by simpa using hid, ?_⟩ ha
        by_contra hstate
        exact hfree (not_or.mp hstate)
  | enterPin pin =>
    simp only [step, enterPin]
    split
    · exact .inl rfl
    · split
      · exact .inl setStatusText_state
      · exact .inl setStatusText_state
  | disconnect => exact absurd rfl hd
  | expire t =>
    by_cases hm : t ∈ c.timers
    · cases t with
      | resolved =>
        rw [step_expire_of_mem hm, onTimer]
        split
        · exact .inl rfl
        · rename_i hstate
          exact .inr ⟨not_not.mp hstate, enter_state⟩
      | verified => exact absurd ⟨rfl, hm⟩ (ht .verified (by decide))
      | established => exact absurd ⟨rfl, hm⟩ (ht .established (by decide))
    · exact .inl (by rw [step_expire_of_notMem hm])
  | serviceError reason => exact .inl setStatusText_state

/-- Without timers and a session none is scheduled unless a session is accepted. -/
theorem timers_of_idle (hs : c.state = .idle) (ht : c.timers = [])
    (ha : ¬ Accepts (call step c e)) : (step c e).2.timers = [] := by
  cases e with
  | connectToId id =>
    simp only [step, connectToId]
    split
    · rw [setStatusText_timers, ht]
    · rename_i hid
      exact absurd ⟨id, rfl, by simpa using hid, .inl hs⟩ ha
  | enterPin pin => simp [step, enterPin, hs, ht]
  | disconnect => simp [step, disconnect, hs, ht]
  | expire t => simp [step, expire, ht]
  | serviceError reason => rw [step, setStatusText_timers, ht]

/-- A session starts when the last timer expires, and only then. -/
theorem count_sessionStarted_eq_one (h : Expires .established (call step c e)) :
    (step c e).1.count .sessionStarted = 1 := by
  obtain ⟨hop, hm⟩ := h
  rw [call_op] at hop
  subst hop
  rw [call_pre] at hm
  rw [step_expire_of_mem hm]
  simp [onTimer]

theorem count_sessionStarted_eq_zero (h : ¬ Expires .established (call step c e)) :
    (step c e).1.count .sessionStarted = 0 := by
  cases e with
  | connectToId id =>
    simp only [step, connectToId]
    split
    · exact count_setStatusText
    · split
      · rfl
      · simp
  | enterPin pin =>
    simp only [step, enterPin]
    split
    · rfl
    · split
      · exact count_setStatusText
      · exact count_setStatusText
  | disconnect =>
    simp only [step, disconnect]
    split
    · rfl
    · simp
  | expire t =>
    by_cases hm : t ∈ c.timers
    · cases t with
      | resolved =>
        rw [step_expire_of_mem hm, onTimer]
        split
        · rfl
        · simp
      | verified =>
        rw [step_expire_of_mem hm]
        simp [onTimer]
      | established => exact absurd ⟨rfl, hm⟩ h
    · rw [step_expire_of_notMem hm]
      rfl
  | serviceError reason => exact count_setStatusText

end SessionController

end Redesk.Ui
