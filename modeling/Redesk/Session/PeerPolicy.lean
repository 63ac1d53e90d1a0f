import Redesk.Session.Handshake

/-! Peer policy over a run: the deny list, the pins of first contact, and when a denied peer is
really blocked. -/
namespace Redesk.SessionManager
open Machine

variable {clock : ℕ → UInt64} {m : SessionManager} {h : List Call} {op : Op} {id : UInt64}

/-- The fingerprint that a completed handshake shows for a routing id. -/
def shownFor (r : String) (c : Call) : Option String :=
  match c.op with
  | .onHandshakeCompleted id fp =>
    if c.res = .status .success ∧ (c.pre.find id).any (fun s => decide (s.peer.redeskId = r)) then
      some fp
    else none
  | _ => none

variable (clock) in
theorem getElem?_pinsAfter (r : String) :
    (m.pinsAfter op)[r]? = (m.tofuPins[r]?).or (shownFor r (call (step clock) m op)) := by
  cases op with
  | onHandshakeCompleted id fp =>
    have hsucc : (m.step clock (.onHandshakeCompleted id fp)).1 = .status .success ↔
        (m.find id).isSome ∧ fp ∉ m.denyList := complete_success_iff clock m
    cases hs : m.find id with
    | none => simp [pinsAfter, shownFor, hs]
    | some s =>
      by_cases hd : fp ∈ m.denyList
      · have hne : (m.step clock (.onHandshakeCompleted id fp)).1 ≠ .status .success :=
          fun hres => (hsucc.mp hres).2 hd
        simp [pinsAfter, shownFor, hs, hd, hne]
      · have hres := hsucc.mpr ⟨Option.isSome_of_eq_some hs, hd⟩
        by_cases hr : s.peer.redeskId = r
        · subst hr
          cases hp : m.tofuPins[s.peer.redeskId]? with
          | none =>
            have hm := notMem_tofuPins hp
            simp [pinsAfter, shownFor, hs, hd, hres, hm]
          | some pin =>
            have hm := mem_tofuPins hp
            simp only [pinsAfter, hs, hm, or_true, if_true, hp]
            rfl
        · simp only [pinsAfter, shownFor, hs, call_op, call_pre, call_res, hres]
          split <;> simp [Std.ExtTreeMap.getElem?_insert, hr]
  | _ => simp [pinsAfter, shownFor]

/-- The pins are of first contact and permanent: a routing id is pinned to the fingerprint of the
first handshake that completed for it, no call changes a pin, a key change is recorded exactly on a
mismatch by a peer that is not denied, and a denied fingerprint pins nothing. -/
theorem tofuPins_spec (hr : Run clock h m) :
    (∀ r : String, m.tofuPins[r]? = h.findSome? (shownFor r)) ∧
    (∀ (op : Op) (r pin : String), m.tofuPins[r]? = some pin →
      (m.step clock op).2.tofuPins[r]? = some pin) ∧
    (∀ id fp s, m.find id = some s →
      (DetectsKeyChange id (call (step clock) m (.onHandshakeCompleted id fp)) ↔
        fp ∉ m.denyList ∧ ∃ pin, m.tofuPins[s.peer.redeskId]? = some pin ∧ pin ≠ fp)) ∧
    ∀ id fp, fp ∈ m.denyList →
      (m.step clock (.onHandshakeCompleted id fp)).2.tofuPins = m.tofuPins := by
  refine ⟨fun r => ?_, fun op r pin hp => ?_, fun id fp s hs => ?_, fun id fp hd => ?_⟩
  · induction hr with
    | nil => rfl
    | @snoc h m hr op ih =>
      rw [findSome?_snoc, ← ih, tofuPins_step, getElem?_pinsAfter clock]
  · rw [tofuPins_step, getElem?_pinsAfter clock, hp]
    rfl
  · rw [detectsKeyChange_iff]
    constructor
    · rintro ⟨fp', hop, t, ht, hd, hpin⟩
      obtain rfl : s = t := find_unique hs ht
      obtain rfl : fp = fp' := (Op.onHandshakeCompleted.inj hop).2
      exact ⟨hd, hpin⟩
    · rintro ⟨hd, hpin⟩
      exact ⟨fp, rfl, s, hs, hd, hpin⟩
  · rw [tofuPins_step]
    cases hs : m.find id <;> simp [pinsAfter, hs, hd]

theorem tofuPins_spec_changed : (final (step fun _ => 0) {} [.beginSession guest,
    .onHandshakeCompleted 1 "A", .onHandshakeCompleted 1 "B"]).tofuPins["123-456"]? =
      some "A" := by
  have hr := run_ops (fun _ => 0) [.beginSession guest,
    .onHandshakeCompleted 1 "A", .onHandshakeCompleted 1 "B"]
  rw [(tofuPins_spec hr).1]
  decide

/-- The last word on a fingerprint was to deny it. -/
def Denied (fp : String) (h : List Call) : Prop :=
  Since (fun c => c.op = .denyPeer fp) (fun c => c.op = .allowPeer fp) h

theorem denyList_step : (m.step clock op).2.denyList = (m.policyAfter op).2 :=
  congrArg Prod.snd (policy_step clock m op)

theorem mem_denyList_iff (hr : Run clock h m) {fp : String} : fp ∈ m.denyList ↔ Denied fp h := by
  induction hr with
  | nil => exact ⟨fun hm => (Finset.notMem_empty fp hm).elim, fun hd => (since_nil hd).elim⟩
  | @snoc h m hr op ih =>
    rw [Denied, since_snoc, ← Denied, ← ih, denyList_step]
    cases op with
    | denyPeer fp' => simp [policyAfter, eq_comm]
    | allowPeer fp' => simp [policyAfter, eq_comm]
    | _ => simp [policyAfter, policy]

/-- The fingerprint that a handshake callback passes for a known session. -/
def passedFp (id : UInt64) (c : Call) : Option String :=
  match c.op with
  | .onHandshakeCompleted i fp => if i = id ∧ (c.pre.find id).isSome then some fp else none
  | _ => none

/-- The session's peer has the fingerprint, by declaration or by its latest handshake. -/
def Carries (a : List Call) (m : SessionManager) (id : UInt64) (fp : String) : Prop :=
  ∃ s, m.find id = some s ∧ (s.peer.fingerprint = fp ∨ latest (passedFp id) a = some fp)

theorem passedFp_eq {fp : String} : passedFp id (call (step clock) m op) = some fp ↔
    op = .onHandshakeCompleted id fp ∧ (m.find id).isSome := by
  cases op with
  | onHandshakeCompleted i fp' =>
    constructor
    · intro hp
      obtain ⟨⟨rfl, hk⟩, hfp⟩ := Option.ite_none_right_eq_some.mp hp
      obtain rfl := Option.some.inj hfp
      exact ⟨rfl, hk⟩
    · rintro ⟨hop, hk⟩
      obtain ⟨rfl, rfl⟩ := Op.onHandshakeCompleted.inj hop
      exact if_pos ⟨rfl, hk⟩
  | _ => simp [passedFp]

/-- A session that is not there has had no handshake. -/
theorem latest_passedFp_unknown (hr : Run clock h m) (hn : m.find id = none) :
    latest (passedFp id) h = none := by
  induction hr with
  | nil => rfl
  | @snoc h m hr op ih =>
    cases hs : m.find id with
    | none =>
      rw [latest_snoc, ih hs, Option.or_none]
      refine Option.eq_none_iff_forall_not_mem.mpr fun fp hp => ?_
      have hk := (passedFp_eq.mp hp).2
      rw [hs] at hk
      cases hk
    | some s =>
      obtain ⟨s', hs', -⟩ := session_step clock op hs
      rw [hn] at hs'
      cases hs'

/-- Where the fingerprint of a session's peer comes from after a call. -/
theorem carries_step {a : List Call} {fp : String} (hr : Run clock a m)
    (hc : Carries (a ++ [call (step clock) m op]) (m.step clock op).2 id fp) :
    Carries a m id fp ∨ (op = .onHandshakeCompleted id fp ∧ (m.find id).isSome) ∨
      ∃ peer, op = .beginSession peer ∧ peer.fingerprint = fp ∧ fp ∉ m.denyList := by
  obtain ⟨s', hs', hfp⟩ := hc
  have hpassed (hl : latest (passedFp id) (a ++ [call (step clock) m op]) = some fp) :
      latest (passedFp id) a = some fp ∨ op = .onHandshakeCompleted id fp ∧ (m.find id).isSome := by
    rw [latest_snoc] at hl
    cases hp : passedFp id (call (step clock) m op) with
    | none => exact .inl (by simpa [hp] using hl)
    | some fp' =>
      obtain rfl : fp' = fp := by simpa [hp] using hl
      exact .inr (passedFp_eq.mp hp)
  cases hs : m.find id with
  | none =>
    obtain ⟨peer, hop, hd, rfl⟩ := session_created hs hs'
    rcases hfp with rfl | hl
    · exact .inr (.inr ⟨peer, hop, rfl, hd⟩)
    · rcases hpassed hl with hl | ⟨-, hk⟩
      · rw [latest_passedFp_unknown hr hs] at hl
        cases hl
      · rw [hs] at hk
        cases hk
  | some s =>
    obtain ⟨t, ht, hpeer, -⟩ := session_step clock op hs
    obtain rfl : s' = t := find_unique hs' ht
    rcases hfp with hfp | hl
    · exact .inl ⟨s, hs, .inl (by rw [← hpeer, hfp])⟩
    · rcases hpassed hl with hl | hop
      · exact .inl ⟨s, hs, .inr hl⟩
      · exact .inr (.inl (by rwa [hs] at hop))

theorem Carries.step {a : List Call} {fp : String} (hc : Carries a m id fp)
    (hne : passedFp id (call (step clock) m op) = none) :
    Carries (a ++ [call (step clock) m op]) (m.step clock op).2 id fp := by
  obtain ⟨s, hs, hfp⟩ := hc
  obtain ⟨s', hs', hpeer, -⟩ := session_step clock op hs
  refine ⟨s', hs', hfp.imp (fun hfp => by rw [hpeer, hfp]) fun hl => ?_⟩
  rw [latest_snoc, hne, hl]
  rfl

/-- After every call, a session of a denied peer is refused by the gate and by `authorize`. -/
def HardBlock (clock : ℕ → UInt64) (h : List Call) : Prop :=
  Along (fun a c => ∀ fp, Denied fp (a ++ [c]) → ∀ id, Carries (a ++ [c]) c.post id fp →
    (∀ needed, (c.post.checkPermission clock id needed).1 = false) ∧
    ∀ requested, (c.post.authorize clock id requested).1.ok = false) h

/-- The list is consulted too early: a peer is denied while a session carries it, or a handshake
completes with a denied fingerprint and leaves the session there. -/
def Slips (a : List Call) (c : Call) : Prop :=
  (∃ fp id, c.op = .denyPeer fp ∧ Carries a c.pre id fp) ∨
    ∃ id fp, c.op = .onHandshakeCompleted id fp ∧ (c.pre.find id).isSome ∧ fp ∈ c.pre.denyList

theorem mem_denyList_step {fp : String} (hd : fp ∈ (m.step clock op).2.denyList) :
    fp ∈ m.denyList ∨ op = .denyPeer fp := by
  rw [denyList_step] at hd
  cases op with
  | denyPeer fp' =>
    rcases Finset.mem_insert.mp hd with rfl | hd
    · exact .inr rfl
    · exact .inl hd
  | allowPeer fp' => exact .inl (Finset.mem_of_mem_erase hd)
  | _ => exact .inl hd

variable (clock) in
/-- Asking for `viewOnly` succeeds on every session that is there. -/
theorem authorize_viewOnly (hk : (m.find id).isSome) :
    (m.authorize clock id .viewOnly).1.ok = true := by
  have ha : allowedBits .viewOnly m.ceiling ≠ 0 := by
    intro h0
    have hb : Mask.bits (allowedBits .viewOnly m.ceiling) = ∅ := by rw [h0]; exact Mask.bits_zero
    rw [allowedBits, Mask.bits_and, Mask.bits_or] at hb
    have hv : 0 ∈ Mask.bits Capabilities.viewOnly := mem_bits_viewOnly.mpr rfl
    exact Set.notMem_empty 0 (hb ▸ ⟨hv, .inr hv⟩)
  have hres := (authorize_success_iff clock m).mpr ⟨hk, ha⟩
  rw [show (m.authorize clock id .viewOnly).1 = .success from Reply.status.inj hres]
  rfl

/-- No session carries a denied peer. -/
def Apart (a : List Call) (m : SessionManager) : Prop :=
  ∀ fp ∈ m.denyList, ∀ id, ¬ Carries a m id fp

/-- A call that does not slip keeps denied peers away from every session. -/
theorem apart_step {a : List Call} (hr : Run clock a m) (hi : Apart a m)
    (hq : ¬ Slips a (call (step clock) m op)) :
    Apart (a ++ [call (step clock) m op]) (m.step clock op).2 := by
  intro fp hd id hc
  rcases carries_step hr hc with hpre | ⟨rfl, hk⟩ | ⟨peer, rfl, rfl, hn⟩
  · rcases mem_denyList_step hd with hd | rfl
    · exact hi fp hd id hpre
    · exact hq (.inl ⟨fp, id, rfl, hpre⟩)
  · rcases mem_denyList_step hd with hd | hop
    · exact hq (.inr ⟨id, fp, rfl, hk, hd⟩)
    · cases hop
  · rcases mem_denyList_step hd with hd | hop
    · exact hn hd
    · cases hop

/-- A call that slips leaves a session that carries a denied peer. -/
theorem carries_of_slips {a : List Call} (hs : Slips a (call (step clock) m op)) :
    ∃ fp ∈ (m.step clock op).2.denyList, ∃ id,
      Carries (a ++ [call (step clock) m op]) (m.step clock op).2 id fp := by
  rcases hs with ⟨fp, id, hop, hc⟩ | ⟨id, fp, hop, hk, hd⟩
  · obtain rfl : op = .denyPeer fp := hop
    exact ⟨fp, Finset.mem_insert_self fp m.denyList, id, Carries.step hc rfl⟩
  · obtain rfl : op = .onHandshakeCompleted id fp := hop
    obtain ⟨s, hs⟩ := Option.isSome_iff_exists.mp hk
    obtain ⟨s', hs', -⟩ := session_step clock (.onHandshakeCompleted id fp) hs
    have hpass : passedFp id (call (step clock) m (.onHandshakeCompleted id fp)) = some fp :=
      passedFp_eq.mpr ⟨rfl, hk⟩
    refine ⟨fp, by rw [denyList_step]; exact hd, id, s', hs', .inr ?_⟩
    rw [latest_snoc, hpass]
    rfl

/-- The deny list is a hard block throughout a run just when no peer is denied while a session
carries its fingerprint, and no handshake on a known session completes with a denied one. -/
theorem hardBlock_iff (hr : Run clock h m) :
    HardBlock clock h ↔ Along (fun a c => ¬ Slips a c) h := by
  apply hr.along_iff (I := Apart)
  · intro fp hd
    exact (Finset.notMem_empty fp hd).elim
  · intro a m op hr hi hq
    exact apart_step hr hi hq
  intro a m op hr hi
  constructor
  · intro hp hs
    obtain ⟨fp, hd, id, hc⟩ := carries_of_slips hs
    have hdenied := (mem_denyList_iff (hr.snoc op)).mp hd
    have hshut := (hp fp hdenied id hc).2 .viewOnly
    obtain ⟨s, hs, -⟩ := hc
    have hopen : ((m.step clock op).2.authorize clock id .viewOnly).1.ok = true :=
      authorize_viewOnly clock (Option.isSome_of_eq_some hs)
    exact Bool.false_ne_true (hshut.symm.trans hopen)
  · intro hq fp hd id hc
    have hmem := (mem_denyList_iff (hr.snoc op)).mpr hd
    exact (apart_step hr hi hq fp hmem id hc).elim

theorem hardBlock_refused : HardBlock (fun _ => 0)
    (calls (step fun _ => 0) {} [.denyPeer "11111 22222", .beginSession guest]) := by
  refine (hardBlock_iff (run_ops _ _)).mpr ?_
  simp only [calls, along_cons, along_nil, and_true]
  constructor
  · rintro (⟨fp, id, -, s, hs, -⟩ | ⟨id, fp, hop, -⟩)
    · cases hs
    · cases hop
  · rintro (⟨fp, id, hop, -⟩ | ⟨id, fp, hop, -⟩) <;> cases hop

/-- A peer that is denied while its session is active keeps its capabilities. -/
theorem not_hardBlock_active : ¬ HardBlock (fun _ => 0) (calls (step fun _ => 0) {}
    [.beginSession guest, .authorize 1 .viewOnly, .denyPeer "11111 22222"]) := by
  intro hp
  have hblock := hp (calls (step fun _ => 0) {} [.beginSession guest, .authorize 1 .viewOnly]) _ []
    rfl "11111 22222" (since_snoc.mpr (.inl rfl)) 1
    ⟨{ id := 1, peer := guest, state := .active, granted := 1 }, by decide, .inl rfl⟩
  exact absurd (hblock.1 .viewOnly) (by decide)

end Redesk.SessionManager
