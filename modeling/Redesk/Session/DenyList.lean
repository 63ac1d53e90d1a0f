import Redesk.Session.PeerPolicy

/-! What the deny list decides: which calls it refuses, what a refused call leaves as it was, and
that the ids of sessions are new. -/
namespace Redesk.SessionManager
open Machine

variable {clock : ℕ → UInt64} {m : SessionManager} {h a : List Call} {op : Op} {id : UInt64}

/-- The reply is an error for want of permission. -/
def Reply.PermissionDenied : Reply → Prop
  | .id r => r.status.code = .permissionDenied
  | .status s => s.code = .permissionDenied
  | _ => False

/-- The id that a call returns. -/
def returnedId (c : Call) : Option UInt64 :=
  match c.res with
  | .id r => if r.status.ok then some r.value else none
  | _ => none

/-- The ids of the sessions that the calls began. -/
def returnedIds (h : List Call) : List UInt64 := h.filterMap returnedId

/-- The call is decided by the last word on its fingerprint, leaves what it must if it is refused,
and begins a session of its own if it is not. -/
structure DenyClean (a : List Call) (c : Call) : Prop where
  begin_iff : ∀ peer, c.op = .beginSession peer →
    (c.res.PermissionDenied ↔ Denied peer.fingerprint a)
  complete_iff : ∀ id fp, c.op = .onHandshakeCompleted id fp → (c.pre.find id).isSome →
    (c.res.PermissionDenied ↔ Denied fp a)
  begin_rejected : ∀ peer, c.op = .beginSession peer → c.res.PermissionDenied →
    c.post.sessions = c.pre.sessions ∧ c.post.nextId = c.pre.nextId
  complete_rejected : ∀ id fp, c.op = .onHandshakeCompleted id fp → c.res.PermissionDenied →
    c.post.tofuPins = c.pre.tofuPins ∧ ∃ s, c.post.find id = some s ∧ s.state = .denied
  begun : ∀ peer id, c.op = .beginSession peer → returnedId c = some id →
    id ∉ returnedIds a ∧ c.pre.find id = none ∧
      c.post.find id = some { id := id, peer := peer, state := .pending, granted := .none }
  disjoint : Disjoint c.post.allowList c.post.denyList

@[simp] theorem allowList_auditRefused (fp : String) (requested : Capabilities) :
    (m.auditRefused clock fp requested).allowList = m.allowList := by
  unfold auditRefused
  split <;> rfl

@[simp] theorem nextId_auditRefused (fp : String) (requested : Capabilities) :
    (m.auditRefused clock fp requested).nextId = m.nextId := by
  unfold auditRefused
  split <;> rfl

def allowListAfter (m : SessionManager) : Op → Finset String
  | .allowPeer fp => insert fp m.allowList
  | .denyPeer fp => m.allowList.erase fp
  | _ => m.allowList

variable (clock m) in
theorem allowList_step (op : Op) : (m.step clock op).2.allowList = m.allowListAfter op := by
  have he := step_exit clock m op
  generalize (m.step clock op).1 = r, (m.step clock op).2 = m' at he
  cases he with
  | authorizeRefused i requested s hs ha => exact allowList_auditRefused _ requested
  | authorized i requested s hs ha => exact allowList_auditRefused _ requested
  | _ => rfl

theorem disjoint_step (hd : Disjoint m.allowList m.denyList) :
    Disjoint (m.step clock op).2.allowList (m.step clock op).2.denyList := by
  rw [allowList_step, denyList_step]
  cases op with
  | allowPeer fp =>
    show Disjoint (insert fp m.allowList) (m.denyList.erase fp)
    rw [Finset.disjoint_insert_left]
    exact ⟨Finset.notMem_erase fp _, hd.mono_right (Finset.erase_subset fp _)⟩
  | denyPeer fp =>
    show Disjoint (m.allowList.erase fp) (insert fp m.denyList)
    rw [Finset.disjoint_insert_right]
    exact ⟨Finset.notMem_erase fp _, hd.mono_left (Finset.erase_subset fp _)⟩
  | _ => exact hd

theorem disjoint_run (hr : Run clock h m) : Disjoint m.allowList m.denyList := by
  induction hr with
  | nil => exact Finset.disjoint_empty_left _
  | snoc hr op ih => exact disjoint_step ih

variable (clock m) in
theorem begin_refused_iff (peer : PeerInfo) :
    (m.step clock (.beginSession peer)).1.PermissionDenied ↔ peer.fingerprint ∈ m.denyList := by
  have he := step_exit clock m (.beginSession peer)
  generalize (m.step clock (.beginSession peer)).1 = r,
    (m.step clock (.beginSession peer)).2 = m' at he
  cases he with
  | beginDenied peer hd => exact iff_of_true rfl hd
  | begun peer hd =>
    refine iff_of_false (fun hr => ?_) hd
    cases hr

variable (clock m) in
theorem complete_refused_iff (fp : String) :
    (m.step clock (.onHandshakeCompleted id fp)).1.PermissionDenied ↔
      (m.find id).isSome ∧ fp ∈ m.denyList := by
  have he := step_exit clock m (.onHandshakeCompleted id fp)
  generalize (m.step clock (.onHandshakeCompleted id fp)).1 = r,
    (m.step clock (.onHandshakeCompleted id fp)).2 = m' at he
  cases he with
  | completeUnknown i fp hs =>
    refine iff_of_false (fun hr => ?_) (by simp [hs])
    cases hr
  | completeDenied i fp s hs hd => exact iff_of_true rfl ⟨by simp [hs], hd⟩
  | keyChanged i fp pin s hs hd hp hne =>
    refine iff_of_false (fun hr => ?_) fun h => hd h.2
    cases hr
  | keyMatched i fp s hs hd hp =>
    refine iff_of_false (fun hr => ?_) fun h => hd h.2
    cases hr
  | firstContact i fp s hs hd hp =>
    refine iff_of_false (fun hr => ?_) fun h => hd h.2
    cases hr

variable (clock) in
/-- A session that is refused is not begun, and its id stays for the next. -/
theorem begin_rejected {peer : PeerInfo} (hd : peer.fingerprint ∈ m.denyList) :
    (m.step clock (.beginSession peer)).2.sessions = m.sessions ∧
      (m.step clock (.beginSession peer)).2.nextId = m.nextId := by
  have he := step_exit clock m (.beginSession peer)
  generalize (m.step clock (.beginSession peer)).1 = r,
    (m.step clock (.beginSession peer)).2 = m' at he
  cases he with
  | beginDenied peer hd => exact ⟨rfl, rfl⟩
  | begun peer hn => exact absurd hd hn

variable (clock) in
/-- A handshake that is refused pins nothing and leaves its session denied. -/
theorem complete_rejected {fp : String} (hk : (m.find id).isSome) (hd : fp ∈ m.denyList) :
    (m.step clock (.onHandshakeCompleted id fp)).2.tofuPins = m.tofuPins ∧
      ∃ s, (m.step clock (.onHandshakeCompleted id fp)).2.find id = some s ∧
        s.state = .denied := by
  obtain ⟨s, hs⟩ := Option.isSome_iff_exists.mp hk
  have he : m.effect (.onHandshakeCompleted id fp) = .move id .denied := if_pos ⟨hk, hd⟩
  refine ⟨?_, s.setState .denied, ?_, rfl⟩
  · rw [tofuPins_step]
    simp [pinsAfter, hs, hd]
  · rw [find_step, he, hs]
    exact if_pos rfl

variable (clock m) in
/-- A session that is not refused takes the next id, and no other call does. -/
theorem returnedId_cases (op : Op) :
    (∃ peer, op = .beginSession peer ∧ peer.fingerprint ∉ m.denyList ∧
        returnedId (call (step clock) m op) = some m.nextId ∧
        (m.step clock op).2.nextId = m.nextId + 1) ∨
      (∀ peer, op = .beginSession peer → peer.fingerprint ∈ m.denyList) ∧
        returnedId (call (step clock) m op) = none ∧ (m.step clock op).2.nextId = m.nextId := by
  have he := step_exit clock m op
  rw [returnedId, call_res]
  generalize (m.step clock op).1 = r, (m.step clock op).2 = m' at he
  cases he with
  | begun peer hd => exact .inl ⟨peer, rfl, hd, rfl, rfl⟩
  | beginDenied peer hd =>
    refine .inr ⟨fun p hp => ?_, rfl, rfl⟩
    cases hp
    exact hd
  | authorizeRefused i requested s hs ha =>
    exact .inr ⟨(fun _ hp => nomatch hp), rfl, nextId_auditRefused _ requested⟩
  | authorized i requested s hs ha =>
    exact .inr ⟨(fun _ hp => nomatch hp), rfl, nextId_auditRefused _ requested⟩
  | _ => exact .inr ⟨(fun _ hp => nomatch hp), rfl, rfl⟩

theorem returnedId_begun {peer : PeerInfo} (hd : peer.fingerprint ∉ m.denyList) :
    returnedId (call (step clock) m (.beginSession peer)) = some m.nextId := by
  rcases returnedId_cases clock m (.beginSession peer) with ⟨p, -, -, hret, -⟩ | ⟨hall, -⟩
  · exact hret
  · exact absurd (hall peer rfl) hd

/-- A session is made under the id that the call returns. -/
theorem returnedId_of_created {s : Session} (hs : m.find id = none)
    (hs' : (m.step clock op).2.find id = some s) :
    returnedId (call (step clock) m op) = some id := by
  obtain ⟨peer, rfl, hd, rfl⟩ := session_created hs hs'
  rw [find_step, hs] at hs'
  by_cases hid : m.nextId = id
  · rw [returnedId_begun hd, hid]
  · have hne : (m.effect (.beginSession peer)).subject ≠ some id := by
      simp only [effect]
      split
      · intro h
        cases h
      · simpa [Effect.subject] using hid
    rw [if_neg hne] at hs'
    cases hs'

/-- The ids in use are those from one up to the number of sessions that were begun. -/
structure Numbered (a : List Call) (m : SessionManager) : Prop where
  next : m.nextId.toNat = ((returnedIds a).length + 1) % 2 ^ 64
  returned : ∀ id ∈ returnedIds a, 0 < id.toNat ∧ id.toNat ≤ (returnedIds a).length
  found : ∀ id, (m.find id).isSome → 0 < id.toNat ∧ id.toNat ≤ (returnedIds a).length

theorem returnedIds_snoc {c : Call} :
    returnedIds (a ++ [c]) = returnedIds a ++ (returnedId c).toList := by
  rw [returnedIds, List.filterMap_append]
  cases hc : returnedId c <;> simp [returnedIds, hc]

theorem numbered_nil : Numbered [] {} := by
  refine ⟨rfl, fun id hid => ?_, fun id hid => ?_⟩
  · cases hid
  · cases hid

/-- A session that is there after a call was there before, or the call returns its id. -/
theorem found_or_returned (hk : ((m.step clock op).2.find id).isSome) :
    (m.find id).isSome ∨ returnedId (call (step clock) m op) = some id := by
  cases hs : m.find id with
  | some s => exact .inl rfl
  | none =>
    obtain ⟨s, hs'⟩ := Option.isSome_iff_exists.mp hk
    exact .inr (returnedId_of_created hs hs')

theorem numbered_step (hi : Numbered a m)
    (hn : (returnedIds (a ++ [call (step clock) m op])).length < 2 ^ 64) :
    Numbered (a ++ [call (step clock) m op]) (m.step clock op).2 := by
  rcases returnedId_cases clock m op with ⟨peer, hop, hd, hret, hnext⟩ | ⟨-, hret, hnext⟩
  · have hlen : (returnedIds (a ++ [call (step clock) m op])).length =
        (returnedIds a).length + 1 := by
      rw [returnedIds_snoc, hret]
      simp
    have hid : m.nextId.toNat = (returnedIds a).length + 1 := by
      rw [hi.next]
      exact Nat.mod_eq_of_lt (by omega)
    constructor
    · rw [hnext, UInt64.toNat_add, hid, hlen]
      rfl
    · intro id hmem
      rw [returnedIds_snoc, hret] at hmem
      rw [hlen]
      rcases List.mem_append.mp hmem with hmem | hmem
      · have := hi.returned id hmem
        omega
      · obtain rfl : id = m.nextId := List.mem_singleton.mp hmem
        omega
    · intro id hk
      rw [hlen]
      rcases found_or_returned hk with hk | hnew
      · have := hi.found id hk
        omega
      · obtain rfl : m.nextId = id := by simpa [hret] using hnew
        omega
  · have hsame : returnedIds (a ++ [call (step clock) m op]) = returnedIds a := by
      rw [returnedIds_snoc, hret]
      simp
    rw [hsame] at hn
    refine ⟨by rw [hsame, hnext]; exact hi.next, by rw [hsame]; exact hi.returned, fun id hk => ?_⟩
    rw [hsame]
    rcases found_or_returned hk with hk | hnew
    · exact hi.found id hk
    · rw [hret] at hnew
      cases hnew

/-- A session that is begun has an id that no call has returned, and is new. -/
theorem begun_fresh {peer : PeerInfo} (hi : Numbered a m)
    (hn : (returnedIds (a ++ [call (step clock) m (.beginSession peer)])).length < 2 ^ 64)
    (hret : returnedId (call (step clock) m (.beginSession peer)) = some id) :
    id ∉ returnedIds a ∧ m.find id = none ∧
      (m.step clock (.beginSession peer)).2.find id = some { id := id, peer := peer } := by
  rcases returnedId_cases clock m (.beginSession peer) with ⟨p, hop, hd, hret', -⟩ | ⟨-, hnone, -⟩
  swap
  · rw [hret] at hnone
    cases hnone
  obtain rfl : peer = p := Op.beginSession.inj hop
  obtain rfl : id = m.nextId := by simpa [hret] using hret'
  have hlen : (returnedIds a).length + 1 < 2 ^ 64 := by
    rw [returnedIds_snoc, hret, List.length_append] at hn
    exact hn
  have hid : m.nextId.toNat = (returnedIds a).length + 1 := by
    rw [hi.next]
    exact Nat.mod_eq_of_lt hlen
  have hnew : m.find m.nextId = none := by
    cases hs : m.find m.nextId with
    | none => rfl
    | some s =>
      have hold := hi.found m.nextId (Option.isSome_of_eq_some hs)
      omega
  refine ⟨fun hmem => ?_, hnew, ?_⟩
  · have hold := hi.returned m.nextId hmem
    omega
  · have he : m.effect (.beginSession peer) = .create m.nextId peer := by
      simp [effect, hd, hnew]
    rw [find_step, he]
    exact if_pos rfl

theorem numbered_run (hr : Run clock h m) (hn : (returnedIds h).length < 2 ^ 64) :
    Numbered h m := by
  induction hr with
  | nil => exact numbered_nil
  | snoc hr op ih =>
    refine numbered_step (ih ?_) hn
    rw [returnedIds_snoc, List.length_append] at hn
    omega

/-- In a run with fewer sessions than there are ids, the deny list decides as it was last told to,
refuses cleanly, and never shares a fingerprint with the allow list. -/
theorem denyClean (hr : Run clock h m) (hn : (returnedIds h).length < 2 ^ 64) :
    Along DenyClean h ∧ Disjoint m.allowList m.denyList := by
  refine ⟨?_, disjoint_run hr⟩
  rintro a c b rfl
  have hn : (returnedIds (a ++ [c])).length < 2 ^ 64 := by
    rw [returnedIds, List.append_cons, List.filterMap_append, List.length_append] at hn
    exact (Nat.le_add_right _ _).trans_lt hn
  obtain ⟨hra, hc, -⟩ := hr.split
  generalize c.pre = m, c.op = op at hra hc
  subst hc
  have hdenied (fp : String) : fp ∈ m.denyList ↔ Denied fp a := mem_denyList_iff hra
  constructor
  · rintro peer rfl
    rw [← hdenied]
    exact begin_refused_iff clock m peer
  · rintro id fp rfl hk
    rw [← hdenied]
    exact (complete_refused_iff clock m fp).trans (and_iff_right hk)
  · rintro peer rfl hrefused
    exact begin_rejected clock ((begin_refused_iff clock m peer).mp hrefused)
  · rintro id fp rfl hrefused
    obtain ⟨hk, hd⟩ := (complete_refused_iff clock m fp).mp hrefused
    exact complete_rejected clock hk hd
  · rintro peer id rfl hret
    have hlen : (returnedIds a).length < 2 ^ 64 := by
      rw [returnedIds_snoc, List.length_append] at hn
      omega
    exact begun_fresh (numbered_run hra hlen) hn hret
  · exact disjoint_step (disjoint_run hra)

theorem denyClean_guest : Along DenyClean (calls (step fun _ => 0) {}
      [.denyPeer "11111 22222", .beginSession guest, .allowPeer "11111 22222",
        .beginSession guest]) ∧
    Disjoint (final (step fun _ => 0) {} [.denyPeer "11111 22222", .beginSession guest,
      .allowPeer "11111 22222", .beginSession guest]).allowList
      (final (step fun _ => 0) {} [.denyPeer "11111 22222", .beginSession guest,
        .allowPeer "11111 22222", .beginSession guest]).denyList :=
  denyClean (run_ops _ _) (by decide)

end Redesk.SessionManager
