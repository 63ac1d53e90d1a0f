import Redesk.Crypto.Handshake

/-! Two Noise sessions joined by a transport that delivers the handshake messages of each to the
other in any order, and its ciphertexts in the order in which they were made. -/
namespace Redesk
open Machine

/-- Each side's session, the handshake messages it wrote, and its texts that the other side has not
decrypted yet: plaintext and ciphertext. -/
structure Link where
  session : Side → NoiseSession
  messages : Side → List Bytes
  texts : Side → List (Bytes × Bytes)

namespace Link

def create (pattern : Side → NoisePattern) (role : Side → HandshakeRole) (ids : Side → Identity)
    (remote : Side → PublicKey) : Link where
  session x := NoiseSession.create (pattern x) (role x) (ids x) (remote x)
  messages _ := []
  texts _ := []

/-- What side `x` does next. -/
inductive Event where
  | write (x : Side) (payload : Bytes)
  | read (x : Side) (i : ℕ)
  | encrypt (x : Side) (plaintext ad : Bytes)
  | decrypt (x : Side) (ad : Bytes)
  deriving DecidableEq, Repr

/-- The call on a session that an event makes: `read x i` delivers the `i`-th message that the other
side wrote, and `decrypt x` the oldest text of the other side. -/
def request (l : Link) : Event → Option (Side × NoiseSession.Op)
  | .write x payload => some (x, .writeMessage payload)
  | .read x i => (l.messages x.other)[i]?.map fun message => (x, .readMessage message)
  | .encrypt x plaintext ad => some (x, .encrypt plaintext ad)
  | .decrypt x ad => (l.texts x.other).head?.map fun text => (x, .decrypt text.2 ad)

/-- What the transport keeps of a reply. -/
def carry (l : Link) (x : Side) : NoiseSession.Op → Except Status Bytes → Link
  | .writeMessage _, .ok message =>
    { l with messages := Function.update l.messages x (l.messages x ++ [message]) }
  | .encrypt plaintext _, .ok ciphertext =>
    { l with texts := Function.update l.texts x (l.texts x ++ [(plaintext, ciphertext)]) }
  | .decrypt _ _, .ok _ =>
    { l with texts := Function.update l.texts x.other (l.texts x.other).tail }
  | _, _ => l

def step (l : Link) (e : Event) : Option (Except Status Bytes) × Link :=
  match l.request e with
  | none => (none, l)
  | some (x, op) =>
    let (r, s) := (l.session x).step op
    (some r, { l.carry x op r with session := Function.update l.session x s })

abbrev Call := Machine.Call Link Event (Option (Except Status Bytes))

abbrev Run : Link → List Call → Link → Prop := Machine.Run step

variable {l l₀ : Link} {h : List Call} {e : Event} {x : Side} {op : NoiseSession.Op}

theorem step_of_request (hq : l.request e = some (x, op)) :
    l.step e = (some ((l.session x).step op).1,
      { l.carry x op ((l.session x).step op).1 with
        session := Function.update l.session x ((l.session x).step op).2 }) := by
  simp only [step, hq]

theorem step_of_request_none (hq : l.request e = none) : l.step e = (none, l) := by
  simp only [step, hq]

/-- The call on the session of side `x` that an event has made. -/
def view (x : Side) (c : Call) : Option NoiseSession.Call :=
  match c.pre.request c.op with
  | some (y, op) =>
    if y = x then some (Machine.call NoiseSession.step (c.pre.session x) op) else none
  | none => none

theorem session_step (x : Side) : ((l.step e).2.session x = l.session x ∧
    view x (call step l e) = none) ∨
      ∃ op, l.request e = some (x, op) ∧
        (l.step e).2.session x = ((l.session x).step op).2 ∧
        view x (call step l e) = some (Machine.call NoiseSession.step (l.session x) op) := by
  cases hq : l.request e with
  | none => exact .inl (by simp [step_of_request_none hq, view, hq])
  | some q =>
    obtain ⟨y, op⟩ := q
    rw [step_of_request hq]
    by_cases hy : y = x
    · subst hy
      exact .inr ⟨op, rfl, by simp, by simp [view, hq]⟩
    · exact .inl (by simp [view, hq, hy, Function.update_of_ne (Ne.symm hy)])

theorem view_run (hr : Run l₀ h l) (x : Side) :
    NoiseSession.Run (l₀.session x) (h.filterMap (view x)) (l.session x) := by
  induction hr with
  | nil => exact .nil
  | @snoc h l hr e ih =>
    rw [List.filterMap_append]
    rcases session_step (l := l) (e := e) x with ⟨hsame, hview⟩ | ⟨op, -, hnext, hview⟩
    · rw [hsame]
      simpa [hview] using ih
    · rw [hnext]
      simpa [hview] using ih.snoc op

theorem view_eq_some {c : Call} {d : NoiseSession.Call} : view x c = some d ↔
    ∃ op, c.pre.request c.op = some (x, op) ∧
      d = Machine.call NoiseSession.step (c.pre.session x) op := by
  rw [view]
  cases hq : c.pre.request c.op with
  | none => simp
  | some q =>
    obtain ⟨y, op⟩ := q
    by_cases hy : y = x
    · simp [hy, eq_comm]
    · simp [hy]

theorem request_readMessage {message : Bytes} (hq : l.request e = some (x, .readMessage message)) :
    ∃ i, e = .read x i ∧ (l.messages x.other)[i]? = some message := by
  cases e with
  | read y i =>
    obtain ⟨m, hm, hop⟩ := Option.map_eq_some_iff.mp hq
    cases hop
    exact ⟨i, rfl, hm⟩
  | write y payload => cases hq
  | encrypt y plaintext ad => cases hq
  | decrypt y ad =>
    obtain ⟨text, -, hop⟩ := Option.map_eq_some_iff.mp hq
    cases hop

theorem request_decrypt {ciphertext ad : Bytes}
    (hq : l.request e = some (x, .decrypt ciphertext ad)) :
    ∃ text ts, e = .decrypt x ad ∧ l.texts x.other = text :: ts ∧ text.2 = ciphertext := by
  cases e with
  | read y i =>
    obtain ⟨message, -, hop⟩ := Option.map_eq_some_iff.mp hq
    cases hop
  | write y payload => cases hq
  | encrypt y plaintext ad => cases hq
  | decrypt y ad =>
    obtain ⟨text, hhead, hop⟩ := Option.map_eq_some_iff.mp hq
    cases hop
    obtain ⟨ts, hts⟩ := List.head?_eq_some_iff.mp hhead
    exact ⟨text, ts, rfl, hts, rfl⟩

end Link

end Redesk
