import Redesk.Ui.ServiceClient

/-! Messages before authentication: when the client emits them only in the state for it. -/
namespace Redesk.Ui.ServiceClient
open Machine

variable {c s : ServiceClient} {b : Bytes} {h : List Call} {e : Event} {em : Emission}
  {opcode : UInt16} {payload : Bytes}

/-- The call emits messages only while the client is ready. -/
def Gated (d : Call) : Prop :=
  ∀ em ∈ d.res, ∀ opcode payload, em.signal = .messageReceived opcode payload → em.state = .ready

/-- Bytes that complete a frame arrive while the client is not ready. -/
def Early (d : Call) : Prop :=
  ∃ bytes, d.op = .readyRead bytes ∧ d.pre.state ≠ .ready ∧
    StartsWithFrame (d.pre.rxBuffer ++ bytes)

theorem signal_of_setState {t : State} (h : em ∈ (c.setState t).1) :
    em.signal = .stateChanged t := by
  unfold setState at h
  split at h
  · cases h
  · rw [List.mem_singleton.mp h]

/-- Messages come from what is read, and from nothing else. -/
theorem readyRead_of_message (h : em ∈ (step c e).1)
    (hm : em.signal = .messageReceived opcode payload) : ∃ bytes, e = .readyRead bytes := by
  have hnone {c : ServiceClient} {t : State} (h : em ∈ (c.setState t).1) : False := by
    rw [signal_of_setState h] at hm
    cases hm
  cases e with
  | readyRead bytes => exact ⟨bytes, rfl⟩
  | connectToService authToken =>
    simp only [step, connectToService] at h
    split at h
    · cases h
    · exact (hnone h).elim
  | disconnectFromService => exact (hnone h).elim
  | disconnected => exact (hnone h).elim
  | connected =>
    simp only [step, onConnected, beginAuth] at h
    rcases List.mem_append.mp h with h | h
    · exact (hnone h).elim
    · split at h
      · cases h
      · exact (hnone h).elim
  | errorOccurred reason =>
    rcases List.mem_cons.mp h with rfl | h
    · cases hm
    · exact (hnone h).elim

theorem cut_eq_item_iff : (∃ x rest, frames.cut b = .item x rest) ↔ StartsWithFrame b := by
  constructor
  · rintro ⟨x, rest, h⟩
    exact (cutFrame_eq_item h).1
  · intro h
    exact ⟨_, _, cutFrame_of_startsWithFrame h⟩

/-- Messages are drained from a buffer that starts with a frame, and from no other. -/
theorem drain_eq_nil_iff : (frames.drain b).1 = [] ↔ ¬ StartsWithFrame b := by
  rw [← cut_eq_item_iff]
  cases hc : frames.cut b with
  | more => simp [Buffer.Reader.drain_more hc]
  | bad => simp [Buffer.Reader.drain_bad hc]
  | item x rest => simp [Buffer.Reader.drain_item hc]

theorem message_mem_received {ms : List (UInt16 × Bytes)} {t : State} (h : ms ≠ []) :
    ∃ opcode payload, { signal := .messageReceived opcode payload, state := t } ∈
      received t ms := by
  obtain ⟨m, hm⟩ := List.exists_mem_of_ne_nil ms h
  exact ⟨m.1, m.2, List.mem_map_of_mem hm⟩

/-- All emissions for what was drained, with those of a rejected frame. -/
theorem emissions_readyRead (bytes : Bytes) : ∃ rejected,
    (step c (.readyRead bytes)).1 =
        received c.state (frames.drain (c.rxBuffer ++ bytes)).1 ++ rejected ∧
      ∀ em ∈ rejected, ∀ opcode payload, em.signal ≠ .messageReceived opcode payload := by
  show ∃ rejected, (drainFrames { c with rxBuffer := c.rxBuffer ++ bytes }).1 = _ ∧ _
  rw [drainFrames_eq, rejectFrame_rxBuffer]
  cases hd : frames.drain (c.rxBuffer ++ bytes) with
  | mk ms left =>
    cases left with
    | some left => exact ⟨[], (List.append_nil _).symm, by simp⟩
    | none =>
      refine ⟨c.rejectFrame.1, rfl, fun em hem opcode payload hm => ?_⟩
      rcases List.mem_cons.mp hem with rfl | hem
      · cases hm
      · rw [signal_of_setState hem] at hm
        cases hm

theorem gated_iff_step : Gated (call step c e) ↔ ¬ Early (call step c e) := by
  constructor
  · rintro hg ⟨bytes, hop, hstate, hframe⟩
    rw [call_op] at hop
    subst hop
    obtain ⟨rejected, he, -⟩ := emissions_readyRead (c := c) bytes
    obtain ⟨opcode, payload, hmem⟩ :=
      message_mem_received (t := c.state) (mt drain_eq_nil_iff.mp (not_not.mpr hframe))
    have hemitted : { signal := .messageReceived opcode payload, state := c.state } ∈
        (step c (.readyRead bytes)).1 := by
      rw [he]
      exact List.mem_append_left _ hmem
    exact hstate (hg _ hemitted opcode payload rfl)
  · intro hn em hem opcode payload hm
    obtain ⟨bytes, rfl⟩ := readyRead_of_message hem hm
    obtain ⟨rejected, he, hrejected⟩ := emissions_readyRead (c := c) bytes
    rw [call_res, he] at hem
    rcases List.mem_append.mp hem with hem | hem
    · obtain ⟨m, hmem, rfl⟩ := List.mem_map.mp hem
      by_contra hstate
      refine hn ⟨bytes, rfl, hstate, ?_⟩
      by_contra hframe
      have hnil := drain_eq_nil_iff.mpr hframe
      rw [call_pre] at hnil
      rw [hnil] at hmem
      cases hmem
    · exact absurd hm (hrejected em hem opcode payload)

/-- In a run of the client messages are emitted only while it is ready just when no bytes complete
a frame while it is not. -/
theorem gated_iff (hr : Run {} h s) : (∀ d ∈ h, Gated d) ↔ ∀ d ∈ h, ¬ Early d := by
  refine forall₂_congr fun d hd => ?_
  rw [hr.call_of_mem hd]
  exact gated_iff_step

theorem gated_after_token :
    (final step {} [.connectToService [1], .connected]).state = .ready ∧
    ∀ d ∈ calls step {}
      [.connectToService [1], .connected, .readyRead [0, 0, 0, 2, 0, 7]], Gated d := by
  refine ⟨by decide, (gated_iff (run_calls _ _)).mpr ?_⟩
  rintro d hd ⟨bytes, hop, hstate, -⟩
  simp only [calls, List.mem_cons, List.not_mem_nil, or_false] at hd
  rcases hd with rfl | rfl | rfl
  · cases hop
  · cases hop
  · exact hstate rfl

/-- Without a token the client is never ready, and yet emits what it receives. -/
theorem not_gated_without_token : ¬ ∀ d ∈ calls step {}
    [.connectToService [], .connected, .readyRead [0, 0, 0, 2, 0, 7]], Gated d := by
  intro hg
  have hstep := gated_iff_step.mp (hg (call step { state := .authenticating }
    (.readyRead [0, 0, 0, 2, 0, 7])) (.tail _ (.tail _ (.head _))))
  refine hstep ⟨_, rfl, by decide, ?_⟩
  constructor <;> decide

end Redesk.Ui.ServiceClient
