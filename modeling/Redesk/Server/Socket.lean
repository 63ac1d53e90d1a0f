import Redesk.Common.Types
import Redesk.Machine.Descriptors

/-! The sockets of the servers: move-only objects, each the owner of at most one handle of the
system, over all programs that use them. -/
namespace Redesk.Server
open Machine

abbrev SocketHandle := ℤ

def kInvalidSocket : SocketHandle := -1

structure Socket where
  handle : SocketHandle := kInvalidSocket
  deriving DecidableEq, Repr

def Socket.valid (s : Socket) : Bool := decide (s.handle ≠ kInvalidSocket)

/-- `EAGAIN`, which is also `EWOULDBLOCK`, and `EINTR`. -/
def wouldBlock (e : ℤ) : Bool := decide (e = 11 ∨ e = 4)

/-- What the system answers to a factory: the handle of `socket` or `accept`, which is negative one
when that fails with `errno`, and whether `bind` and `listen` succeed. -/
structure Answers where
  handle : SocketHandle
  errno : ℤ := 0
  bind : Bool := true
  listen : Bool := true
  deriving DecidableEq, Repr

/-- The objects of a program that are alive, the handles that it obtained from the system itself and
made no object of yet, and the handles that the system gave out and was given back. -/
structure Program where
  objects : ℕ → Option Socket := fun _ => none
  loose : SocketHandle → Bool := fun _ => false
  handles : List (Descriptors.Call SocketHandle) := []

namespace Program

def closeHandle (p : Program) (h : SocketHandle) : Program :=
  if h ≠ kInvalidSocket then { p with handles := p.handles ++ [.closed h] } else p

/-- A handle that the system returns is open from then on. -/
def openHandle (p : Program) (h : SocketHandle) : Program :=
  if h ≠ kInvalidSocket then { p with handles := p.handles ++ [.opened h] } else p

def handleOf (p : Program) (o : ℕ) : SocketHandle := ((p.objects o).getD {}).handle

def assign (p : Program) (o : ℕ) (s : Option Socket) : Program :=
  { p with objects := Function.update p.objects o s }

/-- `Socket()` -/
def construct (p : Program) (o : ℕ) : Program := p.assign o (some {})

/-- `Socket(h)` -/
def constructFrom (p : Program) (o : ℕ) (h : SocketHandle) : Program :=
  p.assign o (some { handle := h })

def close (p : Program) (o : ℕ) : Program :=
  (p.closeHandle (p.handleOf o)).assign o (some { handle := kInvalidSocket })

def destroy (p : Program) (o : ℕ) : Program := (p.close o).assign o none

def moveConstruct (p : Program) (o source : ℕ) : Program :=
  (p.assign o (some { handle := p.handleOf source })).assign source
    (some { handle := kInvalidSocket })

def moveAssign (p : Program) (o source : ℕ) : Program :=
  if o ≠ source then
    let p := p.close o
    let p := p.assign o (some { handle := p.handleOf source })
    p.assign source (some { handle := kInvalidSocket })
  else p

/-- The result of a factory, whose socket is the object `o`. -/
def fail (p : Program) (o : ℕ) (code : ErrorCode) (message : String) : Status × Program :=
  (.error code message, p.construct o)

def good (p : Program) (o : ℕ) (h : SocketHandle) : Status × Program :=
  (.success, p.constructFrom o h)

def bindUdp (p : Program) (o : ℕ) (port : UInt16) (a : Answers) : Status × Program :=
  let s := a.handle
  if s = kInvalidSocket then p.fail o .internal "udp socket() failed"
  else
    let p := p.openHandle s
    if !a.bind then
      (p.closeHandle s).fail o .internal ("udp bind() failed on port " ++ toString port.toNat)
    else p.good o s

def listenTcp (p : Program) (o : ℕ) (port : UInt16) (a : Answers) : Status × Program :=
  let s := a.handle
  if s = kInvalidSocket then p.fail o .internal "tcp socket() failed"
  else
    let p := p.openHandle s
    if !a.bind then
      (p.closeHandle s).fail o .internal ("tcp bind() failed on port " ++ toString port.toNat)
    else if !a.listen then (p.closeHandle s).fail o .internal "listen() failed"
    else p.good o s

def accept (p : Program) (o : ℕ) (a : Answers) : Status × Program :=
  let c := a.handle
  if c = kInvalidSocket then
    p.fail o (if wouldBlock a.errno then .again else .connectionLost) "accept() failed"
  else (p.openHandle c).good o c

/-- A system call of the program's own that gives it the handle `h`. -/
def obtain (p : Program) (h : SocketHandle) : Program :=
  let p := p.openHandle h
  { p with loose := Function.update p.loose h true }

/-- The program closes a handle of its own. -/
def giveBack (p : Program) (h : SocketHandle) : Program :=
  let p := p.closeHandle h
  { p with loose := Function.update p.loose h false }

/-- The program makes an object of a handle, which then is the object's. -/
def adopt (p : Program) (o : ℕ) (h : SocketHandle) : Program :=
  let p := p.constructFrom o h
  { p with loose := Function.update p.loose h false }

/-- What a program does with its sockets and handles. -/
inductive Op where
  | obtain (h : SocketHandle)
  | giveBack (h : SocketHandle)
  | construct (o : ℕ)
  | adopt (o : ℕ) (h : SocketHandle)
  | close (o : ℕ)
  | destroy (o : ℕ)
  | moveConstruct (o source : ℕ)
  | moveAssign (o source : ℕ)
  | bindUdp (o : ℕ) (port : UInt16) (a : Answers)
  | listenTcp (o : ℕ) (port : UInt16) (a : Answers)
  | accept (o listener : ℕ) (a : Answers)
  deriving DecidableEq, Repr

def step (p : Program) : Op → Status × Program
  | .obtain h => (.success, p.obtain h)
  | .giveBack h => (.success, p.giveBack h)
  | .construct o => (.success, p.construct o)
  | .adopt o h => (.success, p.adopt o h)
  | .close o => (.success, p.close o)
  | .destroy o => (.success, p.destroy o)
  | .moveConstruct o source => (.success, p.moveConstruct o source)
  | .moveAssign o source => (.success, p.moveAssign o source)
  | .bindUdp o port a => p.bindUdp o port a
  | .listenTcp o port a => p.listenTcp o port a
  | .accept o _ a => p.accept o a

def Alive (p : Program) (o : ℕ) : Prop := (p.objects o).isSome

/-- The system gives out no handle that is open. -/
def Fresh (p : Program) (h : SocketHandle) : Prop :=
  h ≠ kInvalidSocket → ¬ Descriptors.IsOpen p.handles h

/-- The rules of the language: an object is constructed once before it is used and not used after it
is destroyed. The factories make a new object. A program closes a handle, or makes an object of it,
only if it is its own. -/
def Legal (p : Program) : Op → Prop
  | .obtain h => h ≠ kInvalidSocket ∧ p.Fresh h
  | .giveBack h => p.loose h = true
  | .construct o => ¬ p.Alive o
  | .adopt o h => ¬ p.Alive o ∧ (h = kInvalidSocket ∨ p.loose h = true)
  | .close o | .destroy o => p.Alive o
  | .moveConstruct o source => ¬ p.Alive o ∧ p.Alive source
  | .moveAssign o source => p.Alive o ∧ p.Alive source
  | .bindUdp o _ a | .listenTcp o _ a => ¬ p.Alive o ∧ p.Fresh a.handle
  | .accept o listener a => ¬ p.Alive o ∧ p.Alive listener ∧ p.Fresh a.handle

/-- The object that a factory makes. -/
def Op.made : Op → Option ℕ
  | .bindUdp o _ _ | .listenTcp o _ _ | .accept o _ _ => some o
  | _ => none

/-- Who can own a handle: an object, or the program, a handle of its own. -/
inductive Owner where
  | object (o : ℕ)
  | loose (h : SocketHandle)
  deriving DecidableEq, Repr

def owning (h : SocketHandle) : Option SocketHandle := if h = kInvalidSocket then none else some h

/-- The handle that is owned. -/
def held (p : Program) : Owner → Option SocketHandle
  | .object o => owning (p.handleOf o)
  | .loose h => if p.loose h then owning h else none

/-- Nothing that a program opens is lost, closed twice or shared, and a factory that fails leaves
nothing behind. -/
structure Owns (h : List (Call Program Op Status)) (p : Program) : Prop where
  owned : Descriptors.Owned p.handles p.held
  dead : (∀ o, ¬ p.Alive o) → (∀ d, p.loose d = false) → ∀ d, ¬ Descriptors.IsOpen p.handles d
  made : ∀ c ∈ h, ∀ o, c.op.made = some o →
    ∃ s, c.post.objects o = some s ∧ s.valid = c.res.ok
  failed : ∀ c ∈ h, c.res.ok = false →
    ∀ d, Descriptors.IsOpen c.post.handles d ↔ Descriptors.IsOpen c.pre.handles d

section Ownership
variable {p : Program} {o source : ℕ} {a : Answers} {port : UInt16} {d : SocketHandle}

@[simp] theorem handles_assign (p : Program) (o : ℕ) (s : Option Socket) :
    (p.assign o s).handles = p.handles := rfl

@[simp] theorem objects_assign (p : Program) (o : ℕ) (s : Option Socket) :
    (p.assign o s).objects = Function.update p.objects o s := rfl

theorem held_assign (p : Program) (o : ℕ) (s : Option Socket) :
    (p.assign o s).held = Function.update p.held (.object o) (owning (s.getD {}).handle) := by
  funext i
  cases i with
  | loose d => rfl
  | object i =>
    by_cases hi : i = o
    · subst hi
      simp [held, handleOf]
    · simp [held, handleOf, hi]

theorem held_update_loose (p : Program) (h : SocketHandle) (b : Bool) :
    held { p with loose := Function.update p.loose h b } =
      Function.update p.held (.loose h) (if b then owning h else none) := by
  funext i
  cases i with
  | object o => rfl
  | loose d =>
    by_cases hd : d = h
    · subst hd
      simp [held]
    · simp [held, hd]

theorem held_of_not_alive (ho : ¬ p.Alive o) : p.held (.object o) = none := by
  unfold Alive at ho
  rw [Option.not_isSome_iff_eq_none] at ho
  simp [held, handleOf, ho, owning]

@[simp] theorem held_closeHandle (p : Program) (h : SocketHandle) :
    (p.closeHandle h).held = p.held := by
  unfold closeHandle
  split <;> rfl

@[simp] theorem held_openHandle (p : Program) (h : SocketHandle) :
    (p.openHandle h).held = p.held := by
  unfold openHandle
  split <;> rfl

abbrev Sole (p : Program) : Prop := Descriptors.Owned p.handles p.held

/-- An object that holds nothing is overwritten with one that holds nothing. -/
theorem Sole.assign_none {s : Option Socket} (hp : p.Sole) (ho : p.held (.object o) = none)
    (hs : (s.getD {}).handle = kInvalidSocket) : (p.assign o s).Sole := by
  unfold Sole
  rw [held_assign, hs, owning, if_pos rfl, ← ho, Function.update_eq_self]
  exact hp

/-- An owner closes what it owns, if that is a handle. -/
theorem Sole.release {i : Owner} (hp : p.Sole) (hi : p.held i = owning d) :
    Descriptors.Owned (p.closeHandle d).handles (Function.update p.held i none) := by
  unfold owning at hi
  split at hi
  · rename_i hv
    rw [closeHandle, if_neg (not_not.mpr hv), ← hi, Function.update_eq_self]
    exact hp
  · rename_i hv
    rw [closeHandle, if_pos hv]
    exact Descriptors.Owned.release hp hi

theorem Sole.close (hp : p.Sole) (o : ℕ) :
    (p.close o).Sole ∧ (p.close o).held (.object o) = none := by
  have hheld : (p.close o).held = Function.update p.held (.object o) none := by
    unfold Program.close
    rw [held_assign, held_closeHandle]
    rfl
  refine ⟨?_, by rw [hheld, Function.update_self]⟩
  unfold Sole
  rw [hheld]
  exact hp.release rfl

theorem Sole.destroy (hp : p.Sole) (o : ℕ) : (p.destroy o).Sole := by
  obtain ⟨hp, ho⟩ := hp.close o
  exact hp.assign_none ho rfl

/-- What one owner has goes to another one, which had nothing. -/
theorem Sole.pass {i j : Owner} (hp : p.Sole) (hne : i ≠ j) (hi : p.held i = none) :
    Descriptors.Owned p.handles
      (Function.update (Function.update p.held i (p.held j)) j none) := by
  have hswap : Function.update (Function.update p.held i (p.held j)) j none =
      p.held ∘ Equiv.swap i j := by
    funext k
    by_cases hj : k = j
    · subst hj
      simp [hi]
    · by_cases hk : k = i
      · subst hk
        simp [hj]
      · simp [hj, hk, Equiv.swap_apply_of_ne_of_ne hk hj]
  rw [hswap]
  exact Descriptors.Owned.comp hp _

/-- The handle of one object goes to another one, which held none. -/
theorem Sole.handOver (hp : p.Sole) (hne : o ≠ source) (ho : p.held (.object o) = none) :
    ((p.assign o (some { handle := p.handleOf source })).assign source
      (some { handle := kInvalidSocket })).Sole := by
  have hne' : Owner.object o ≠ .object source := fun heq => hne (Owner.object.inj heq)
  unfold Sole
  rw [held_assign, held_assign]
  exact hp.pass hne' ho

/-- A handle of the program's own goes to a new object. -/
theorem Sole.adopt (hp : p.Sole) (ho : p.held (.object o) = none)
    (hd : d = kInvalidSocket ∨ p.loose d = true) : (p.adopt o d).Sole := by
  have hgiven : owning d = p.held (.loose d) := by
    rcases hd with rfl | hd
    · simp [held, owning]
    · simp [held, hd]
  unfold Sole Program.adopt
  rw [held_update_loose, constructFrom, held_assign]
  show Descriptors.Owned p.handles
    (Function.update (Function.update p.held (.object o) (owning d)) (.loose d) none)
  rw [hgiven]
  exact hp.pass (by simp) ho

theorem Sole.giveBack (hp : p.Sole) (hd : p.loose d = true) : (p.giveBack d).Sole := by
  unfold Sole Program.giveBack
  rw [held_update_loose, held_closeHandle]
  exact hp.release (by simp [held, hd])

/-- A handle that the system gave goes to somebody who has none. -/
theorem Sole.take {i : Owner} (hp : p.Sole) (hi : p.held i = none)
    (hd : ¬ Descriptors.IsOpen p.handles d) (hv : d ≠ kInvalidSocket) :
    Descriptors.Owned (p.openHandle d).handles (Function.update p.held i (owning d)) := by
  rw [openHandle, if_pos hv, owning, if_neg hv]
  exact Descriptors.Owned.take hp hi hd

theorem Sole.obtain (hp : p.Sole) (hd : ¬ Descriptors.IsOpen p.handles d)
    (hv : d ≠ kInvalidSocket) : (p.obtain d).Sole := by
  have hi : p.held (.loose d) = none := by
    by_contra hne
    obtain ⟨e, he⟩ := Option.ne_none_iff_exists'.mp hne
    obtain rfl : d = e := by
      unfold held owning at he
      grind
    exact hd ((hp.isOpen_iff d).mpr ⟨_, he⟩)
  unfold Sole Program.obtain
  rw [held_update_loose, held_openHandle]
  exact hp.take hi hd hv

theorem Sole.moveAssign (hp : p.Sole) (o source : ℕ) : (p.moveAssign o source).Sole := by
  unfold Program.moveAssign
  split
  · rename_i hne
    obtain ⟨hp, ho⟩ := hp.close o
    exact hp.handOver hne ho
  · exact hp

theorem Sole.good (hp : p.Sole) (ho : p.held (.object o) = none)
    (hd : ¬ Descriptors.IsOpen p.handles d) (hv : d ≠ kInvalidSocket) :
    ((p.openHandle d).good o d).2.Sole := by
  unfold Sole Program.good constructFrom
  rw [held_assign, held_openHandle]
  exact hp.take ho hd hv

/-- A handle that the system gave goes back to it at once. -/
theorem Sole.borrow (hp : p.Sole) (hd : ¬ Descriptors.IsOpen p.handles d)
    (hv : d ≠ kInvalidSocket) : ((p.openHandle d).closeHandle d).Sole := by
  unfold Sole closeHandle openHandle
  rw [if_pos hv, if_pos hv]
  exact Descriptors.Owned.borrow hp hd

/-- What a factory leaves: one owner for each open handle, an object that is valid just when the
result is good, and after a failure no more handles than before. -/
structure Made (p : Program) (o : ℕ) (r : Status × Program) : Prop where
  sole : r.2.Sole
  made : ∃ s, r.2.objects o = some s ∧ s.valid = r.1.ok
  failed : r.1.ok = false →
    ∀ d, Descriptors.IsOpen r.2.handles d ↔ Descriptors.IsOpen p.handles d

theorem made_fail {q : Program} {code : ErrorCode} (message : String) (hq : q.Sole)
    (ho : q.held (.object o) = none) (hcode : code ≠ .ok)
    (hopen : ∀ d, Descriptors.IsOpen q.handles d ↔ Descriptors.IsOpen p.handles d) :
    Made p o (q.fail o code message) := by
  refine ⟨hq.assign_none ho rfl, ⟨{}, ?_, ?_⟩, fun _ => hopen⟩
  · exact Function.update_self ..
  · simp [Program.fail, Status.error, Status.ok, hcode, Socket.valid]

theorem made_borrow (message : String) (hp : p.Sole) (ho : p.held (.object o) = none)
    (hd : ¬ Descriptors.IsOpen p.handles d) (hv : d ≠ kInvalidSocket) :
    Made p o (((p.openHandle d).closeHandle d).fail o .internal message) := by
  refine made_fail message (hp.borrow hd hv) (by simpa using ho) (by decide) ?_
  intro e
  unfold closeHandle openHandle
  rw [if_pos hv, if_pos hv]
  exact Descriptors.isOpen_borrow hd

theorem made_good (hp : p.Sole) (ho : p.held (.object o) = none)
    (hd : ¬ Descriptors.IsOpen p.handles d) (hv : d ≠ kInvalidSocket) :
    Made p o ((p.openHandle d).good o d) := by
  refine ⟨hp.good ho hd hv, ⟨{ handle := d }, Function.update_self .., ?_⟩, ?_⟩
  · simp [Program.good, Status.success, Status.ok, Socket.valid, hv]
  · intro hfail
    cases hfail

theorem made_bindUdp (hp : p.Sole) (ho : ¬ p.Alive o) (hf : p.Fresh a.handle) (port : UInt16) :
    Made p o (p.bindUdp o port a) := by
  replace ho := held_of_not_alive ho
  simp only [bindUdp]
  by_cases hv : a.handle = kInvalidSocket
  · rw [if_pos hv]
    exact made_fail _ hp ho (by simp) fun _ => Iff.rfl
  rw [if_neg hv]
  cases a.bind
  · exact made_borrow _ hp ho (hf hv) hv
  · exact made_good hp ho (hf hv) hv

theorem made_listenTcp (hp : p.Sole) (ho : ¬ p.Alive o) (hf : p.Fresh a.handle) (port : UInt16) :
    Made p o (p.listenTcp o port a) := by
  replace ho := held_of_not_alive ho
  simp only [listenTcp]
  by_cases hv : a.handle = kInvalidSocket
  · rw [if_pos hv]
    exact made_fail _ hp ho (by simp) fun _ => Iff.rfl
  rw [if_neg hv]
  cases a.bind
  · exact made_borrow _ hp ho (hf hv) hv
  · cases a.listen
    · exact made_borrow _ hp ho (hf hv) hv
    · exact made_good hp ho (hf hv) hv

theorem made_accept (hp : p.Sole) (ho : ¬ p.Alive o) (hf : p.Fresh a.handle) :
    Made p o (p.accept o a) := by
  replace ho := held_of_not_alive ho
  simp only [accept]
  by_cases hv : a.handle = kInvalidSocket
  · rw [if_pos hv]
    refine made_fail _ hp ho ?_ fun _ => Iff.rfl
    cases wouldBlock a.errno <;> simp
  · rw [if_neg hv]
    exact made_good hp ho (hf hv) hv

theorem made_step {op : Op} (hp : p.Sole) (hl : p.Legal op) (ho : op.made = some o) :
    Made p o (p.step op) := by
  cases op with
  | bindUdp o' port a =>
    cases ho
    exact made_bindUdp hp hl.1 hl.2 port
  | listenTcp o' port a =>
    cases ho
    exact made_listenTcp hp hl.1 hl.2 port
  | accept o' listener a =>
    cases ho
    exact made_accept hp hl.1 hl.2.2
  | obtain | giveBack | construct | adopt | close | destroy | moveConstruct | moveAssign => cases ho

theorem sole_step {op : Op} (hp : p.Sole) (hl : p.Legal op) : (p.step op).2.Sole := by
  cases op with
  | obtain h => exact hp.obtain (hl.2 hl.1) hl.1
  | giveBack h => exact hp.giveBack hl
  | construct o => exact hp.assign_none (held_of_not_alive hl) rfl
  | adopt o h => exact hp.adopt (held_of_not_alive hl.1) hl.2
  | close o => exact (hp.close o).1
  | destroy o => exact hp.destroy o
  | moveConstruct o source =>
    have hne : o ≠ source := by
      rintro rfl
      exact hl.1 hl.2
    exact hp.handOver hne (held_of_not_alive hl.1)
  | moveAssign o source => exact hp.moveAssign o source
  | bindUdp | listenTcp | accept => exact (made_step hp hl rfl).sole

/-- Only a factory fails. -/
theorem made_of_failed {op : Op} (hfail : (p.step op).1.ok = false) : ∃ o, op.made = some o := by
  cases op with
  | bindUdp o | listenTcp o | accept o => exact ⟨o, rfl⟩
  | obtain | giveBack | construct | adopt | close | destroy | moveConstruct | moveAssign =>
    cases hfail

end Ownership

theorem sole_run {h : List (Call Program Op Status)} {p : Program} (hr : Run step {} h p)
    (hl : ∀ c ∈ h, c.pre.Legal c.op) : p.Sole := by
  apply hr.invariant_of_along (I := fun _ p => p.Sole) (Q := fun _ c => c.pre.Legal c.op) ?_ ?_
    (along_forall.mpr hl)
  · have hnone : held {} = fun _ => none := by
      funext i
      cases i <;> rfl
    unfold Sole
    rw [hnone]
    exact .nil
  · intro h p op hr hp hl
    exact sole_step hp hl

theorem owns {h : List (Call Program Op Status)} {p : Program} (hr : Run step {} h p)
    (hl : ∀ c ∈ h, c.pre.Legal c.op) : Owns h p := by
  have hmade : ∀ c ∈ h, ∀ o, c.op.made = some o → Made c.pre o (c.res, c.post) := by
    intro c hc o ho
    obtain ⟨before, after, rfl⟩ := List.append_of_mem hc
    obtain ⟨hpre, hcall, -⟩ := hr.split
    have hsole := sole_run hpre fun d hd => hl d (by simp [hd])
    have hstep := made_step hsole (hl c hc) ho
    rw [hcall]
    exact hstep
  have hsole := sole_run hr hl
  refine ⟨hsole, ?_, fun c hc o ho => (hmade c hc o ho).made, ?_⟩
  · intro hdead hloose
    apply hsole.not_isOpen
    rintro (o | d)
    · exact held_of_not_alive (hdead o)
    · simp [held, hloose d]
  · intro c hc hfail
    have hop : ∃ o, c.op.made = some o := by
      rw [hr.call_of_mem hc] at hfail
      exact made_of_failed hfail
    obtain ⟨o, ho⟩ := hop
    exact (hmade c hc o ho).failed hfail

/-- A listener, and a handle of the program's own in an object that takes its place. -/
theorem owns_adopted : ∃ h p, h.length = 4 ∧ Owns h p := by
  let ops : List Op := [.listenTcp 0 9000 { handle := 3 }, .obtain 4, .adopt 1 4, .moveAssign 0 1]
  refine ⟨calls step {} ops, final step {} ops, rfl, owns (run_calls _ _) ?_⟩
  intro c hc
  simp only [ops, calls, List.mem_cons, List.not_mem_nil, or_false] at hc
  rcases hc with rfl | rfl | rfl | rfl
  · simp [Legal, Alive, Fresh]
  · have hnew : ¬ Descriptors.IsOpen ([] ++ [.opened (3 : SocketHandle)]) 4 := by
      rw [Descriptors.isOpen_opened]
      simp
    simpa [Legal, Fresh, step, listenTcp, openHandle, good, constructFrom, kInvalidSocket]
      using hnew
  · simp [Legal, Alive, step, listenTcp, obtain, openHandle, good, constructFrom, kInvalidSocket]
  · simp [Legal, Alive, step, listenTcp, obtain, adopt, openHandle, good, constructFrom,
      kInvalidSocket]

end Program
end Redesk.Server
