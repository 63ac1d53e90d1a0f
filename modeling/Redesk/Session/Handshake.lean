import Redesk.Session.Audit
import Redesk.Session.Provenance

/-! The handshake callbacks against the gate: whether an open gate had a verified handshake, whose
identity a session carries, and what a changed key leaves open. -/
namespace Redesk.SessionManager
open Machine

variable {clock : ℕ → UInt64} {m : SessionManager} {h : List Call} {op : Op} {id : UInt64}

def Active (m : SessionManager) (id : UInt64) : Prop :=
  ∃ s, m.find id = some s ∧ s.state = .active

instance (m : SessionManager) (id : UInt64) : Decidable (Active m id) :=
  decidable_of_iff ((m.find id).any fun s => decide (s.state = .active))
    (by simp [Active, Option.any_eq_true])

theorem not_active_initial : ¬ Active {} id := by
  rintro ⟨s, hs, -⟩
  cases hs

theorem Active.of_gate {needed : Capabilities}
    (hg : (m.checkPermission clock id needed).1 = true) : Active m id := by
  obtain ⟨s, hs, ha, -⟩ := checkPermission_iff.mp hg
  exact ⟨s, hs, ha⟩

theorem Active.gate_none (ha : Active m id) : (m.checkPermission clock id .none).1 = true := by
  obtain ⟨s, hs, ha⟩ := ha
  exact checkPermission_none hs ha

/-- A session is active after a call only if the call authorized it, or it was and the call did
not write it. -/
theorem active_step : Active (m.step clock op).2 id ↔ Authorizes id (call (step clock) m op) ∨
    Active m id ∧ (m.effect op).subject ≠ some id := by
  rw [authorizes_iff]
  cases hs : m.find id with
  | none =>
    constructor
    · rintro ⟨s, hs', ha⟩
      obtain ⟨peer, -, -, rfl⟩ := session_created hs hs'
      cases ha
    · rintro (⟨caps, he⟩ | ⟨⟨s, hs', -⟩, -⟩)
      · obtain ⟨r, -, hk, -⟩ := effect_eq_activate he
        rw [hs] at hk
        cases hk
      · rw [hs] at hs'
        cases hs'
  | some s =>
    obtain ⟨s', hs', -, hcase⟩ := session_step clock op hs
    rcases hcase with ⟨hne, rfl⟩ | ⟨next, he, rfl⟩ | ⟨caps, he, rfl⟩
    · constructor
      · rintro ⟨t, ht, ha⟩
        obtain rfl : s' = t := find_unique hs' ht
        exact .inr ⟨⟨s', hs, ha⟩, hne⟩
      · rintro (⟨caps, he⟩ | ⟨⟨t, ht, ha⟩, -⟩)
        · exact (hne (by rw [he]; rfl)).elim
        · obtain rfl : s' = t := find_unique hs ht
          exact ⟨s', hs', ha⟩
    · constructor
      · rintro ⟨t, ht, ha⟩
        obtain rfl := find_unique hs' ht
        obtain rfl : next = .active := ha
        rcases effect_eq_move he with ⟨hn, -⟩ | ⟨hn, -⟩ | ⟨hn, -⟩ <;> cases hn
      · rintro (⟨caps, he'⟩ | ⟨-, hne⟩)
        · rw [he] at he'
          cases he'
        · exact (hne (by rw [he]; rfl)).elim
    · exact ⟨fun _ => .inl ⟨caps, he⟩, fun _ => ⟨_, hs', rfl⟩⟩

def Starts (id : UInt64) (c : Call) : Prop := c.op = .onHandshakeStarted id

def Completes (id : UInt64) (c : Call) : Prop :=
  ∃ fp, c.op = .onHandshakeCompleted id fp ∧ c.res = .status .success

/-- A handshake of the session completed, and none has been started since. -/
def HandshakeDone (id : UInt64) (h : List Call) : Prop := Since (Completes id) (Starts id) h

/-- After every call, a gate that stands open had a verified handshake. -/
def GateAfterHandshake (clock : ℕ → UInt64) (h : List Call) : Prop :=
  Along (fun a c => ∀ id needed, (c.post.checkPermission clock id needed).1 = true →
    HandshakeDone id (a ++ [c])) h

/-- One step for the handshakes behind the active sessions. -/
theorem handshakeDone_step {a : List Call} (hi : ∀ id, Active m id → HandshakeDone id a)
    (hq : ∀ id, Grants m op id → HandshakeDone id a) (id : UInt64)
    (ha : Active (m.step clock op).2 id) : HandshakeDone id (a ++ [call (step clock) m op]) := by
  unfold HandshakeDone
  rw [since_snoc]
  right
  rcases active_step.mp ha with hauth | ⟨hact, hne⟩
  · have hg := authorizes_iff_grants.mp hauth
    refine ⟨?_, hq id hg⟩
    intro hs
    obtain ⟨r, rfl, -⟩ := hg
    cases hs
  · refine ⟨?_, hi id hact⟩
    intro hs
    obtain ⟨s, hs', -⟩ := hact
    obtain rfl : op = .onHandshakeStarted id := hs
    have he : m.effect (.onHandshakeStarted id) = .move id .authenticating := by
      simp [effect, hs']
    apply hne
    rw [he]
    rfl

/-- No capability before a verified handshake, throughout a run, just when every call that grants
consent comes after a completed handshake with none started since. -/
theorem gateAfterHandshake_iff (hr : Run clock h m) : GateAfterHandshake clock h ↔
    Along (fun a c => ∀ id, Grants c.pre c.op id → HandshakeDone id a) h := by
  apply hr.along_iff (I := fun a m => ∀ id, Active m id → HandshakeDone id a)
  · intro id ha
    exact (not_active_initial ha).elim
  · intro a m op _ hi hq id ha
    exact handshakeDone_step hi hq id ha
  intro a m op _ hi
  constructor
  · intro hp id hg
    have hauth : Authorizes id (call (step clock) m op) := authorizes_iff_grants.mpr hg
    have hdone := hp id .none (active_step.mpr (.inl hauth)).gate_none
    obtain ⟨r, hop, -⟩ := hauth
    rcases since_snoc.mp hdone with ⟨fp, hop', -⟩ | ⟨-, hs⟩
    · rw [hop] at hop'
      cases hop'
    · exact hs
  · intro hq id needed hg
    exact handshakeDone_step hi hq id (Active.of_gate hg)

theorem gateAfterHandshake_xk : GateAfterHandshake (fun _ => 0) (calls (step fun _ => 0) {}
    [.beginSession guest, .onHandshakeStarted 1, .onHandshakeCompleted 1 "11111 22222",
      .authorize 1 .viewOnly]) := by
  refine (gateAfterHandshake_iff (run_ops _ _)).mpr ?_
  simp only [calls, along_cons, along_nil, and_true]
  refine ⟨?_, ?_, ?_, ?_⟩ <;> rintro id ⟨r, hop, -⟩ <;> cases hop
  exact (since_snoc (h := [_, _])).mpr (.inl ⟨_, rfl, by decide⟩)

/-- A pending session is authorized without any handshake. -/
theorem not_gateAfterHandshake_pending : ¬ GateAfterHandshake (fun _ => 0)
    (calls (step fun _ => 0) {} [.beginSession guest, .authorize 1 .viewOnly]) := by
  intro hp
  have hdone := hp (calls (step fun _ => 0) {} [.beginSession guest]) _ [] rfl 1 .viewOnly
    (by decide)
  obtain ⟨c, hc, fp, hop, -⟩ := hdone.exists_mem
  simp only [calls, List.singleton_append, List.mem_cons, List.not_mem_nil, or_false] at hc
  rcases hc with rfl | rfl <;> cases hop

/-- The fingerprint that a completed handshake of the session reports. -/
def verifiedFp (id : UInt64) (c : Call) : Option String :=
  match c.op with
  | .onHandshakeCompleted i fp =>
    if i = id ∧ c.res = .status .success then some fp else none
  | _ => none

theorem verifiedFp_eq {c : Call} {fp : String} : verifiedFp id c = some fp ↔
    c.op = .onHandshakeCompleted id fp ∧ c.res = .status .success := by
  unfold verifiedFp
  cases hop : c.op <;> simp
  grind

variable (clock m) in
theorem complete_success_iff {fp : String} :
    (m.step clock (.onHandshakeCompleted id fp)).1 = .status .success ↔
      (m.find id).isSome ∧ fp ∉ m.denyList := by
  have he := step_exit clock m (.onHandshakeCompleted id fp)
  generalize (m.step clock (.onHandshakeCompleted id fp)).1 = r,
    (m.step clock (.onHandshakeCompleted id fp)).2 = m' at he
  cases he with
  | completeUnknown i fp hs => simp [hs, Status.error, Status.success]
  | completeDenied i fp s hs hd => simp [hd, Status.error, Status.success]
  | keyChanged i fp pin s hs hd hp hne => simp [hs, hd]
  | keyMatched i fp s hs hd hp => simp [hs, hd]
  | firstContact i fp s hs hd hp => simp [hs, hd]

/-- The session carries the fingerprint that its latest completed handshake verified, and what the
other calls on the session log is logged under it. -/
def IdentityKept (h : List Call) : Prop :=
  Along (fun a c => ∀ id fp,
    (latest (verifiedFp id) (a ++ [c]) = some fp →
      ∃ s, c.post.find id = some s ∧ s.peer.fingerprint = fp) ∧
    (latest (verifiedFp id) a = some fp → c.op.target = some id →
      (∀ fp', c.op ≠ .onHandshakeCompleted id fp') →
      ∀ r ∈ appended c, r.peerFingerprint = fp)) h

/-- A handshake completes with a fingerprint that is not the one the session carries. -/
def Renames (m : SessionManager) (op : Op) : Prop :=
  ∃ id fp s, op = .onHandshakeCompleted id fp ∧ m.find id = some s ∧ fp ∉ m.denyList ∧
    s.peer.fingerprint ≠ fp

variable (clock) in
theorem not_renames_iff : ¬ Renames m op ↔
    ∀ id fp, verifiedFp id (call (step clock) m op) = some fp →
      ∃ s, m.find id = some s ∧ s.peer.fingerprint = fp := by
  constructor
  · intro hn id fp hv
    obtain ⟨rfl, hres⟩ := verifiedFp_eq.mp hv
    obtain ⟨hk, hd⟩ := (complete_success_iff clock m).mp hres
    obtain ⟨s, hs⟩ := Option.isSome_iff_exists.mp hk
    refine ⟨s, hs, ?_⟩
    by_contra hne
    exact hn ⟨id, fp, s, rfl, hs, hd, hne⟩
  · rintro hv ⟨id, fp, s, rfl, hs, hd, hne⟩
    have hres := (complete_success_iff clock m).mpr ⟨Option.isSome_of_eq_some hs, hd⟩
    obtain ⟨t, ht, hfp⟩ := hv id fp (verifiedFp_eq.mpr ⟨rfl, hres⟩)
    obtain rfl : s = t := find_unique hs ht
    exact hne hfp

/-- The sessions carry what their handshakes verified. -/
def Identified (a : List Call) (m : SessionManager) : Prop :=
  ∀ id fp, latest (verifiedFp id) a = some fp → ∃ s, m.find id = some s ∧ s.peer.fingerprint = fp

theorem identified_step {a : List Call} (hi : Identified a m)
    (hq : ∀ id fp, verifiedFp id (call (step clock) m op) = some fp →
      ∃ s, m.find id = some s ∧ s.peer.fingerprint = fp) :
    Identified (a ++ [call (step clock) m op]) (m.step clock op).2 := by
  intro id fp hl
  have hpre : ∃ s, m.find id = some s ∧ s.peer.fingerprint = fp := by
    rw [latest_snoc] at hl
    cases hv : verifiedFp id (call (step clock) m op) with
    | none => exact hi id fp (by simpa [hv] using hl)
    | some fp' =>
      obtain rfl : fp' = fp := by simpa [hv] using hl
      exact hq id fp' hv
  obtain ⟨s, hs, hfp⟩ := hpre
  -- no call writes the peer of a session
  obtain ⟨s', hs', hpeer, -⟩ := session_step clock op hs
  exact ⟨s', hs', by rw [hpeer, hfp]⟩

/-- The handshake's fingerprint becomes the identity of the session, throughout a run, just when
every completed handshake reports the fingerprint that the session carries already. -/
theorem identityKept_iff (hr : Run clock h m) : IdentityKept h ↔
    ∀ c ∈ h, ¬ Renames c.pre c.op := by
  rw [← along_forall]
  apply hr.along_iff (I := Identified)
  · intro id fp hl
    simp at hl
  · intro a m op _ hi hq
    exact identified_step hi ((not_renames_iff clock).mp hq)
  intro a m op _ hi
  constructor
  · intro hp
    show ¬ Renames m op
    rw [not_renames_iff clock]
    intro id fp hv
    have hl : latest (verifiedFp id) (a ++ [call (step clock) m op]) = some fp := by
      rw [latest_snoc, hv]
      rfl
    obtain ⟨s', hs', hfp⟩ := (hp id fp).1 hl
    obtain ⟨hop, hres⟩ := verifiedFp_eq.mp hv
    obtain rfl : op = .onHandshakeCompleted id fp := hop
    have hk := ((complete_success_iff clock m).mp hres).1
    obtain ⟨s, hs⟩ := Option.isSome_iff_exists.mp hk
    obtain ⟨t, ht, hpeer, -⟩ := session_step clock (.onHandshakeCompleted id fp) hs
    obtain rfl : s' = t := find_unique hs' ht
    exact ⟨s, hs, by rw [← hpeer, hfp]⟩
  · intro hq id fp
    have hpost := identified_step hi ((not_renames_iff clock).mp hq)
    refine ⟨hpost id fp, ?_⟩
    intro hl ht hc
    obtain ⟨s, hs, hfp⟩ := hi id fp hl
    rw [appended_call, forall_mem_stamp (P := fun f _ => f = fp), ← hfp]
    exact entries_fingerprint hs ht hc

theorem identityKept_declared : IdentityKept (calls (step fun _ => 0) {}
    [.beginSession guest, .onHandshakeCompleted 1 "11111 22222", .deny 1 "refused"]) := by
  have hr := run_ops (fun _ => 0)
    [.beginSession guest, .onHandshakeCompleted 1 "11111 22222", .deny 1 "refused"]
  refine (identityKept_iff hr).mpr ?_
  rintro c hc ⟨id, fp, s, hop, hs, -, hne⟩
  simp only [calls, List.mem_cons, List.not_mem_nil, or_false] at hc
  rcases hc with rfl | rfl | rfl <;> cases hop
  obtain rfl : s = { id := 1, peer := guest } :=
    find_unique hs (by decide)
  exact hne rfl

/-- On a first contact the verified fingerprint is not kept. -/
theorem not_identityKept_firstContact : ¬ IdentityKept (calls (step fun _ => 0) {}
    [.beginSession { guest with fingerprint := "" }, .onHandshakeCompleted 1 "11111 22222"]) := by
  intro hp
  obtain ⟨s, hs, hfp⟩ := (hp (calls (step fun _ => 0) {}
    [.beginSession { guest with fingerprint := "" }]) _ [] rfl 1 "11111 22222").1 (by decide)
  obtain rfl : s = { id := 1, peer := { guest with fingerprint := "" } } :=
    find_unique hs (by decide)
  exact absurd hfp (by decide)

def DetectsKeyChange (id : UInt64) (c : Call) : Prop :=
  ∃ fp, c.op = .onHandshakeCompleted id fp ∧ ∃ r ∈ appended c, r.event = .keyChangeDetected

theorem detectsKeyChange_iff : DetectsKeyChange id (call (step clock) m op) ↔
    ∃ fp, op = .onHandshakeCompleted id fp ∧ ∃ s, m.find id = some s ∧ fp ∉ m.denyList ∧
      ∃ pin, m.tofuPins[s.peer.redeskId]? = some pin ∧ pin ≠ fp := by
  constructor
  · rintro ⟨fp, rfl, hr⟩
    rw [appended_call, exists_mem_stamp (P := fun _ ev => ev = .keyChangeDetected)] at hr
    exact ⟨fp, rfl, keyChange_mem_entries.mp hr⟩
  · rintro ⟨fp, rfl, hs⟩
    refine ⟨fp, rfl, ?_⟩
    rw [appended_call, exists_mem_stamp (P := fun _ ev => ev = .keyChangeDetected)]
    exact keyChange_mem_entries.mpr hs

/-- After a call that detected a changed key, the gate is shut until the next authorization. -/
def KeyChangeShuts (clock : ℕ → UInt64) (h : List Call) : Prop :=
  Along (fun a c => ∀ id, Since (DetectsKeyChange id) (Authorizes id) (a ++ [c]) →
    ∀ needed, (c.post.checkPermission clock id needed).1 = false) h

/-- A handshake brings a key that differs from the pin of an active session. -/
def ChangesActiveKey (m : SessionManager) (op : Op) : Prop :=
  ∃ id fp s pin, op = .onHandshakeCompleted id fp ∧ m.find id = some s ∧ s.state = .active ∧
    fp ∉ m.denyList ∧ m.tofuPins[s.peer.redeskId]? = some pin ∧ pin ≠ fp

variable (clock) in
theorem not_changesActiveKey_iff : ¬ ChangesActiveKey m op ↔
    ∀ id, DetectsKeyChange id (call (step clock) m op) → ¬ Active m id := by
  constructor
  · rintro hn id hd ⟨s, hs, ha⟩
    obtain ⟨fp, hop, t, ht, hfp, pin, hp, hne⟩ := detectsKeyChange_iff.mp hd
    obtain rfl : s = t := find_unique hs ht
    exact hn ⟨id, fp, s, pin, hop, hs, ha, hfp, hp, hne⟩
  · rintro hd ⟨id, fp, s, pin, hop, hs, ha, hfp, hp, hne⟩
    exact hd id (detectsKeyChange_iff.mpr ⟨fp, hop, s, hs, hfp, pin, hp, hne⟩) ⟨s, hs, ha⟩

/-- A call that detects a changed key leaves every session as it was. -/
theorem find_of_detectsKeyChange (hd : DetectsKeyChange id (call (step clock) m op)) :
    (m.step clock op).2.find id = m.find id := by
  obtain ⟨fp, rfl, s, -, hfp, -⟩ := detectsKeyChange_iff.mp hd
  have he : m.effect (.onHandshakeCompleted id fp) = .keep := by simp [effect, hfp]
  rw [find_step, he]
  rfl

/-- No session is active between a changed key and the next authorization. -/
def ShutByKeyChange (a : List Call) (m : SessionManager) : Prop :=
  ∀ id, Since (DetectsKeyChange id) (Authorizes id) a → ¬ Active m id

theorem shutByKeyChange_step {a : List Call} (hi : ShutByKeyChange a m)
    (hq : ∀ id, DetectsKeyChange id (call (step clock) m op) → ¬ Active m id) :
    ShutByKeyChange (a ++ [call (step clock) m op]) (m.step clock op).2 := by
  intro id hs
  rcases since_snoc.mp hs with hd | ⟨hna, hs⟩
  · unfold Active
    rw [find_of_detectsKeyChange hd]
    exact hq id hd
  · intro ha
    rcases active_step.mp ha with ha | ⟨ha, -⟩
    · exact hna ha
    · exact hi id hs ha

/-- A key change requires re-authorization, throughout a run, just when no handshake changes the
key of an active session. -/
theorem keyChangeShuts_iff (hr : Run clock h m) : KeyChangeShuts clock h ↔
    ∀ c ∈ h, ¬ ChangesActiveKey c.pre c.op := by
  rw [← along_forall]
  apply hr.along_iff (I := ShutByKeyChange)
  · intro id hs
    exact (since_nil hs).elim
  · intro a m op _ hi hq
    exact shutByKeyChange_step hi ((not_changesActiveKey_iff clock).mp hq)
  intro a m op _ hi
  constructor
  · intro hp
    show ¬ ChangesActiveKey m op
    rw [not_changesActiveKey_iff clock]
    intro id hd ha
    have hshut := hp id (since_snoc.mpr (.inl hd)) .none
    have ha' : Active (m.step clock op).2 id := by
      unfold Active
      rwa [find_of_detectsKeyChange hd]
    have hopen : ((m.step clock op).2.checkPermission clock id .none).1 = true := ha'.gate_none
    exact Bool.false_ne_true (hshut.symm.trans hopen)
  · intro hq id hs needed
    have hpost := shutByKeyChange_step hi ((not_changesActiveKey_iff clock).mp hq)
    rw [Bool.eq_false_iff]
    intro hg
    exact hpost id hs (Active.of_gate hg)

theorem keyChangeShuts_pending : KeyChangeShuts (fun _ => 0) (calls (step fun _ => 0) {}
    [.beginSession guest, .onHandshakeCompleted 1 "11111 22222",
      .onHandshakeCompleted 1 "33333 44444"]) := by
  refine (keyChangeShuts_iff (run_ops _ _)).mpr ?_
  rintro c hc ⟨id, fp, s, pin, hop, hs, ha, -⟩
  simp only [calls, List.mem_cons, List.not_mem_nil, or_false] at hc
  rcases hc with rfl | rfl | rfl <;> cases hop
  all_goals
    obtain rfl : s = { id := 1, peer := guest } :=
      find_unique hs (by decide)
    cases ha

/-- A key that changes under an active session leaves its gate open. -/
theorem not_keyChangeShuts_active : ¬ KeyChangeShuts (fun _ => 0) (calls (step fun _ => 0) {}
    [.beginSession guest, .onHandshakeCompleted 1 "11111 22222", .authorize 1 .viewOnly,
      .onHandshakeCompleted 1 "33333 44444"]) := by
  intro hp
  have hshut := hp (calls (step fun _ => 0) {} [.beginSession guest,
    .onHandshakeCompleted 1 "11111 22222", .authorize 1 .viewOnly]) _ [] rfl 1
    (since_snoc.mpr (.inl ⟨_, rfl, by decide⟩)) .viewOnly
  exact absurd hshut (by decide)

end Redesk.SessionManager
