import Redesk.Common.Types
import Redesk.Machine.Past

/-! The session manager that the service has when it is built without the engine. It admits every
peer, and of the open sessions it keeps their number only. -/
namespace Redesk.Service
open Machine

structure SessionManager where
  nextId : UInt64 := 0
  active : UInt64 := 0
  lastPeer : String := ""
  deriving DecidableEq, Repr

namespace SessionManager

def openSession (m : SessionManager) (peerFingerprint : String) :
    Result UInt64 × SessionManager :=
  let id := m.nextId + 1
  (.good id, { nextId := id, active := m.active + 1, lastPeer := peerFingerprint })

/-- The id is not looked at. -/
def closeSession (m : SessionManager) (_id : UInt64) : SessionManager :=
  if m.active > 0 then { m with active := m.active - 1 } else m

def activeSessions (m : SessionManager) : UInt64 := m.active

inductive Op where
  | openSession (peerFingerprint : String)
  | closeSession (id : UInt64)
  deriving DecidableEq, Repr

def step (m : SessionManager) : Op → Option (Result UInt64) × SessionManager
  | .openSession peerFingerprint =>
    let (res, m) := m.openSession peerFingerprint
    (some res, m)
  | .closeSession id => (none, m.closeSession id)

abbrev Call := Machine.Call SessionManager Op (Option (Result UInt64))

abbrev Run : List Call → SessionManager → Prop := Machine.Run step {}

/-- The ids that were returned and have not been closed since. -/
def openIds (h : List Call) : Set UInt64 :=
  {id | Since (fun c => c.res = some (.good id)) (fun c => c.op = .closeSession id) h}

/-- After the call the count is that of the open ids, and a close of an id that is not open has
changed nothing. -/
def Counted (a : List Call) (c : Call) : Prop :=
  c.post.activeSessions.toNat = (openIds (a ++ [c])).ncard ∧
    ∀ id, c.op = .closeSession id → id ∉ openIds a → c.post = c.pre

/-- An id is closed while it is open, or while none is; one is opened while it is not open and the
others leave room for its count. -/
def Proper (a : List Call) (c : Call) : Prop :=
  match c.op with
  | .openSession _ => c.pre.nextId + 1 ∉ openIds a ∧ (openIds a).ncard + 1 < 2 ^ 64
  | .closeSession id => id ∈ openIds a ∨ openIds a = ∅

variable {h : List Call} {m : SessionManager} {id : UInt64} {fp : String}

theorem openIds_openSession : openIds (h ++ [call step m (.openSession fp)]) =
    insert (m.nextId + 1) (openIds h) := by
  ext id
  simp [openIds, step, openSession, Result.good, eq_comm]

theorem openIds_closeSession : openIds (h ++ [call step m (.closeSession id)]) =
    openIds h \ {id} := by
  ext id'
  simp [openIds, step, and_comm, eq_comm]

/-- One more is counted just when the id is new and the counter does not wrap. -/
theorem counted_openSession (hm : m.active.toNat = (openIds h).ncard) :
    Counted h (call step m (.openSession fp)) ↔ Proper h (call step m (.openSession fp)) := by
  have hactive : (m.active + 1).toNat = ((openIds h).ncard + 1) % 2 ^ 64 := by
    rw [UInt64.toNat_add, hm]
    rfl
  have hlt : (openIds h).ncard < 2 ^ 64 := hm ▸ m.active.toNat_lt
  have hcounted : Counted h (call step m (.openSession fp)) ↔
      (m.active + 1).toNat = (insert (m.nextId + 1) (openIds h)).ncard := by
    rw [Counted, openIds_openSession]
    exact and_iff_left fun id hop => by cases hop
  rw [hcounted, hactive]
  by_cases hopen : m.nextId + 1 ∈ openIds h
  · rw [Set.insert_eq_of_mem hopen]
    refine iff_of_false (by omega) ?_
    rintro ⟨hnew, -⟩
    exact hnew hopen
  · rw [Set.ncard_insert_of_notMem hopen (Set.toFinite _)]
    have hproper : Proper h (call step m (.openSession fp)) ↔ (openIds h).ncard + 1 < 2 ^ 64 :=
      and_iff_right hopen
    rw [hproper]
    omega

theorem closeSession_of_zero (hm : m.active = 0) : m.closeSession id = m := by
  rw [closeSession, if_neg]
  simp [hm]

theorem closeSession_of_ne_zero (id : UInt64) (hm : m.active ≠ 0) :
    (m.closeSession id).active.toNat + 1 = m.active.toNat := by
  have hpos : m.active > 0 := UInt64.pos_iff_ne_zero.mpr hm
  rw [closeSession, if_pos hpos]
  have hone : 1 ≤ m.active := hpos
  rw [UInt64.toNat_sub_of_le _ _ hone]
  exact Nat.sub_add_cancel hone

/-- One less is counted, whatever the id, unless the count is zero. -/
theorem counted_closeSession (hm : m.active.toNat = (openIds h).ncard) :
    Counted h (call step m (.closeSession id)) ↔ Proper h (call step m (.closeSession id)) := by
  have hcounted : Counted h (call step m (.closeSession id)) ↔
      (m.closeSession id).active.toNat = (openIds h \ {id}).ncard ∧
        (id ∉ openIds h → m.closeSession id = m) := by
    rw [Counted, openIds_closeSession]
    refine and_congr_right fun _ => ⟨fun hstray => hstray id rfl, ?_⟩
    rintro hstray _ hop
    obtain rfl := Op.closeSession.inj hop
    exact hstray
  rw [hcounted]
  by_cases hzero : m.active = 0
  · have hnone : openIds h = ∅ := by
      rw [hzero] at hm
      exact (Set.ncard_eq_zero (Set.toFinite _)).mp hm.symm
    rw [closeSession_of_zero hzero, hm, hnone, Set.empty_sdiff]
    exact iff_of_true ⟨rfl, fun _ => rfl⟩ (.inr hnone)
  have hless := closeSession_of_ne_zero id hzero
  by_cases hopen : id ∈ openIds h
  · have hrest := Set.ncard_sdiff_singleton_add_one hopen (Set.toFinite _)
    exact iff_of_true ⟨by omega, fun hn => (hn hopen).elim⟩ (.inl hopen)
  · refine iff_of_false ?_ ?_
    · rintro ⟨-, hstray⟩
      rw [hstray hopen] at hless
      omega
    · rintro (hin | hnone)
      · exact hopen hin
      · rw [hnone, Set.ncard_empty] at hm
        exact hzero (UInt64.toNat_inj.mp hm)

/-- The count is right throughout a run, and stray closes change nothing, just when all its calls
are proper. -/
theorem counted_iff (hr : Run h m) : Along Counted h ↔ Along Proper h := by
  apply hr.along_iff (I := fun h m => m.active.toNat = (openIds h).ncard)
  · simp [openIds]
  · intro h m op _ hm hp
    cases op with
    | openSession fp => exact ((counted_openSession hm).mpr hp).1
    | closeSession id => exact ((counted_closeSession hm).mpr hp).1
  · intro h m op _ hm
    cases op with
    | openSession fp => exact counted_openSession hm
    | closeSession id => exact counted_closeSession hm

/-- What the service itself does: one session, which is closed when it stops. -/
theorem counted_daemon : Along Counted
    (calls step {} [.openSession "smoke-peer", .closeSession 1]) := by
  refine (counted_iff (run_calls _ _)).mpr ?_
  simp only [calls, along_cons, along_nil, and_true]
  constructor
  · exact ⟨since_nil, by simp [openIds]⟩
  · exact .inl ⟨[], _, [], rfl, rfl, by simp⟩

/-- An id that was never opened takes an open session out of the count. -/
theorem not_counted_stray : ¬ Along Counted
    (calls step {} [.openSession "smoke-peer", .closeSession 99]) := by
  intro hp
  have hstray := (hp (calls step {} [.openSession "smoke-peer"]) _ [] rfl).2 99 rfl ?_
  · exact absurd hstray (by decide)
  · show 99 ∉ openIds ([] ++ [call step {} (.openSession "smoke-peer")])
    rw [openIds_openSession]
    simp [openIds]

end SessionManager
end Redesk.Service
