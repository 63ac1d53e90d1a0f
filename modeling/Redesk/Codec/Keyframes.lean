import Redesk.Codec.Stub
import Redesk.Machine.Past

/-! Requests for a keyframe over the life of an encoder, whose packet callback may call it again. -/
namespace Redesk.Codec.StubEncoder
open Machine Pod

/-- A call of the encoder; `inside` is what the callback does when it is called with the packet. -/
inductive Op where
  | configure (config : EncoderConfig)
  | setPacketCallback (cb : Bool)
  | requestKeyframe
  | forceIntraRefresh
  | encode (frame : VideoFrame) (inside : List Op)

inductive Event where
  | requested
  | emitted (pkt : EncodedPacket)
  | failed (status : Status)
  deriving DecidableEq

mutual

/-- What happens during a call, in the order of time. -/
def perform (o : ByteOrder) (e : StubEncoder) : Op → List Event × StubEncoder
  | .configure config => ([], (e.configure config).2)
  | .setPacketCallback cb => ([], e.setPacketCallback cb)
  | .requestKeyframe => ([.requested], e.requestKeyframe)
  | .forceIntraRefresh => ([.requested], e.forceIntraRefresh)
  | .encode frame inside =>
    match e.encode o frame with
    | (status, none, e) => ([.failed status], e)
    | (_, some pkt, e) =>
      let (events, e) := performAll o e inside
      (.emitted pkt :: events, e)

def performAll (o : ByteOrder) (e : StubEncoder) : List Op → List Event × StubEncoder
  | [] => ([], e)
  | op :: ops =>
    let (first, e) := perform o e op
    let (rest, e) := performAll o e ops
    (first ++ rest, e)

end

def Emits (ev : Event) : Prop := ∃ pkt, ev = .emitted pkt

/-- No packet has been emitted, or none since a request. -/
def Due (a : List Event) : Prop := (∀ ev ∈ a, ¬ Emits ev) ∨ Since (· = .requested) Emits a

/-- A packet is marked as a keyframe when one is due, and its header says the same. -/
def Marked (o : ByteOrder) (a : List Event) (ev : Event) : Prop :=
  ∀ pkt, ev = .emitted pkt → (pkt.keyframe = true ↔ Due a) ∧
    (StubHeader.ofBytes o pkt.data).keyframe = if pkt.keyframe then 1 else 0

/-- No request is lost, and none is spent on a frame that is not encoded. -/
structure KeepsRequests (o : ByteOrder) : Prop where
  marked : ∀ codec ops, Along (Marked o) (performAll o { codec := codec } ops).1
  failed : ∀ (e : StubEncoder) (frame : VideoFrame) (inside : List Op),
    (e.encode o frame).1.ok = false →
      perform o e (.encode frame inside) = ([.failed (e.encode o frame).1], e)

/-- The flags of an encoder say what has happened to it. -/
structure Tracked (o : ByteOrder) (h : List Event) (e : StubEncoder) : Prop where
  first : e.firstFrame = true ↔ ∀ ev ∈ h, ¬ Emits ev
  force : e.forceKeyframe = true ↔ Since (· = .requested) Emits h
  marked : Along (Marked o) h

variable {o : ByteOrder} {e : StubEncoder} {h : List Event}

theorem not_emits_requested : ¬ Emits .requested := by
  rintro ⟨pkt, heq⟩
  cases heq

theorem not_emits_failed {status : Status} : ¬ Emits (.failed status) := by
  rintro ⟨pkt, heq⟩
  cases heq

theorem forall_not_emits_snoc {ev : Event} :
    (∀ ev' ∈ h ++ [ev], ¬ Emits ev') ↔ (∀ ev' ∈ h, ¬ Emits ev') ∧ ¬ Emits ev := by
  simp only [List.forall_mem_append, List.forall_mem_singleton]

/-- Only packets are marked. -/
theorem marked_of_not_emits {ev : Event} (hev : ¬ Emits ev) : Marked o h ev := by
  intro pkt heq
  exact (hev ⟨pkt, heq⟩).elim

/-- Between two packets the flag for the first one stays, and the other one only goes up. -/
theorem Tracked.snoc {ev : Event} {e' : StubEncoder} (ht : Tracked o h e) (hev : ¬ Emits ev)
    (hfirst : e'.firstFrame = e.firstFrame)
    (hforce : e'.forceKeyframe = true ↔ ev = .requested ∨ e.forceKeyframe = true) :
    Tracked o (h ++ [ev]) e' := by
  constructor
  · rw [forall_not_emits_snoc, and_iff_left hev, hfirst, ht.first]
  · rw [since_snoc, and_iff_right hev, hforce, ht.force]
  · exact along_snoc.mpr ⟨ht.marked, marked_of_not_emits hev⟩

theorem tracked_requested (ht : Tracked o h e) :
    Tracked o (h ++ [.requested]) { e with forceKeyframe := true } :=
  ht.snoc not_emits_requested rfl (by simp)

theorem tracked_failed {status : Status} (ht : Tracked o h e) :
    Tracked o (h ++ [.failed status]) e :=
  ht.snoc not_emits_failed rfl (by simp)

/-- The flags of the encoder tell whether a keyframe is due. -/
theorem Tracked.due_iff (ht : Tracked o h e) :
    (e.forceKeyframe || e.firstFrame) = true ↔ Due h := by
  rw [Bool.or_eq_true, ht.force, ht.first, Due, or_comm]

theorem tracked_emitted (frame : VideoFrame) (ht : Tracked o h e) :
    Tracked o (h ++ [.emitted (packet o frame (e.forceKeyframe || e.firstFrame))])
      { e with forceKeyframe := false, firstFrame := false } := by
  have hdue := ht.due_iff
  obtain ⟨hfirst, hforce, hmarked⟩ := ht
  constructor
  · rw [forall_not_emits_snoc]
    exact iff_of_false Bool.false_ne_true fun hn => hn.2 ⟨_, rfl⟩
  · rw [since_snoc]
    refine iff_of_false Bool.false_ne_true ?_
    rintro (heq | ⟨hn, -⟩)
    · cases heq
    · exact hn ⟨_, rfl⟩
  · refine along_snoc.mpr ⟨hmarked, ?_⟩
    intro pkt heq
    obtain rfl := Event.emitted.inj heq
    refine ⟨hdue, ?_⟩
    rw [ofBytes_packet]
    rfl

mutual

theorem tracked_perform (op : Op) (h : List Event) (e : StubEncoder) (ht : Tracked o h e) :
    Tracked o (h ++ (perform o e op).1) (perform o e op).2 :=
  match op with
  | .configure config => by
    rw [perform, List.append_nil]
    exact ⟨ht.first, ht.force, ht.marked⟩
  | .setPacketCallback cb => by
    rw [perform, List.append_nil]
    exact ⟨ht.first, ht.force, ht.marked⟩
  | .requestKeyframe => by
    rw [perform]
    exact tracked_requested ht
  | .forceIntraRefresh => by
    rw [perform]
    exact tracked_requested ht
  | .encode frame inside => by
    rcases e.encode_cases o frame with ⟨status, -, heq⟩ | heq
    · rw [perform, heq]
      exact tracked_failed ht
    · -- what the callback does comes after the packet, with the flags already down
      have hinside := tracked_performAll inside _ _ (tracked_emitted frame ht)
      rw [perform, heq]
      rwa [List.append_assoc, List.singleton_append] at hinside

theorem tracked_performAll (ops : List Op) (h : List Event) (e : StubEncoder)
    (ht : Tracked o h e) : Tracked o (h ++ (performAll o e ops).1) (performAll o e ops).2 :=
  match ops with
  | [] => by
    rw [performAll, List.append_nil]
    exact ht
  | op :: ops => by
    have hrest := tracked_performAll ops _ _ (tracked_perform op h e ht)
    rw [performAll, ← List.append_assoc]
    exact hrest

end

theorem tracked_new (codec : Codec) : Tracked o [] { codec := codec } where
  first := by simp
  force := by simp
  marked := along_nil

theorem keepsRequests (o : ByteOrder) : KeepsRequests o where
  marked codec ops := by
    have ht := (tracked_performAll ops [] _ (tracked_new (o := o) codec)).marked
    rwa [List.nil_append] at ht
  failed e frame inside hfail := by
    rcases e.encode_cases o frame with ⟨status, -, heq⟩ | heq
    · rw [perform, heq]
    · rw [heq] at hfail
      cases hfail

-- a request that the callback makes is for the packet after the one it is called with
example : (performAll .little { codec := .h264 } [.setPacketCallback true,
    .encode {} [.requestKeyframe], .encode { nativeHandle := 1 } [], .encode {} [],
    .encode {} []]).1.map (fun ev => ev matches .emitted { keyframe := true, .. }) =
      [true, false, false, true, false] := by decide

end Redesk.Codec.StubEncoder
