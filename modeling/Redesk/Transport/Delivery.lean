import Redesk.Transport.Loopback

/-! Deliveries of a loopback pair over a run: what arrives on a channel is what was sent on it, and
which deliveries reach an end that is not connected. -/
namespace Redesk.Transport.LoopbackPair
open Machine

variable {p : LoopbackPair} {h a : List Call} {c : Call} {e : Event} {x y : Side} {ch : Channel}
  {payload : Bytes}

/-- The payloads that a call hands to the receive callback of `y` on a channel. -/
def handed (y : Side) (ch : Channel) (c : Call) : List Bytes :=
  (c.res.received.filter fun r => r.1 = y ∧ r.2.1 = ch).map fun r => r.2.2

/-- The payload of a call to send on a channel of `x`, if the call succeeds. -/
def accepted (x : Side) (ch : Channel) (c : Call) : List Bytes :=
  match c.op.op with
  | .send ch' payload =>
    if c.op.side = x ∧ ch' = ch ∧ c.res.status.ok = true then [payload] else []
  | _ => []

def delivered (y : Side) (ch : Channel) (h : List Call) : List Bytes := h.flatMap (handed y ch)

def sent (x : Side) (ch : Channel) (h : List Call) : List Bytes := h.flatMap (accepted x ch)

/-- What the calls of a run deliver in each direction. -/
structure Faithful (h : List Call) : Prop where
  reliable : ∀ x ch, reliabilityFor ch = .reliableOrdered → delivered x.other ch h = sent x ch h
  unreliable : ∀ x ch, reliabilityFor ch = .unreliable →
    (delivered x.other ch h).Sublist (sent x ch h)
  ownChannel : ∀ c ∈ h, ∀ y ch payload, (y, ch, payload) ∈ c.res.received →
    c.op = ⟨y.other, .send ch payload⟩

/-- A call to send succeeds with the delivery of its payload, or on an unreliable channel without
one, or it fails. -/
theorem step_send_cases (p : LoopbackPair) (x : Side) (ch : Channel) (payload : Bytes) :
    ((step p ⟨x, .send ch payload⟩).1 = { received := [(x.other, ch, payload)] } ∧
      (p x).state = .connected ∧ payload.length ≤ kMaxTransportMessage ∧
        (p x.other).receiveCb = true) ∨
    ((step p ⟨x, .send ch payload⟩).1 = {} ∧ reliabilityFor ch = .unreliable) ∨
    ((step p ⟨x, .send ch payload⟩).1.status.ok = false ∧
      (step p ⟨x, .send ch payload⟩).1.received = []) := by
  simp only [step]
  rcases LoopbackTransport.send_cases (p x) (p x.other) ch payload with
    ⟨hs, hconn, hlen, hcb⟩ | ⟨hs, hch⟩ | ⟨hok, hnone⟩
  · rw [hs]
    exact .inl ⟨rfl, hconn, hlen, hcb⟩
  · rw [hs]
    exact .inr (.inl ⟨rfl, hch⟩)
  · exact .inr (.inr ⟨hok, by rw [hnone]; rfl⟩)

/-- What an end receives was sent on the same channel by the other end in the same call. -/
theorem received_step (hr : (y, ch, payload) ∈ (step p e).1.received) :
    e = ⟨y.other, .send ch payload⟩ ∧ (p y.other).state = .connected ∧
      payload.length ≤ kMaxTransportMessage ∧ (p y).receiveCb = true := by
  obtain ⟨x, op⟩ := e
  cases op with
  | send ch' payload' =>
    rcases step_send_cases p x ch' payload' with ⟨hs, hconn, hlen, hcb⟩ | ⟨hs, -⟩ | ⟨-, hs⟩
    · rw [hs] at hr
      cases List.mem_singleton.mp hr
      rw [Side.other_other]
      exact ⟨rfl, hconn, hlen, hcb⟩
    · rw [hs] at hr
      cases hr
    · rw [hs] at hr
      cases hr
  | _ =>
    rw [received_eq_nil (by simp)] at hr
    cases hr

theorem handed_of_received_eq_nil (h : c.res.received = []) : handed y ch c = [] := by
  rw [handed, h]
  rfl

/-- A call hands over what it was given to send, or it drops it on an unreliable channel. -/
theorem handed_cases (p : LoopbackPair) (e : Event) (x : Side) (ch : Channel) :
    handed x.other ch (call step p e) = accepted x ch (call step p e) ∨
      reliabilityFor ch = .unreliable ∧ handed x.other ch (call step p e) = [] := by
  obtain ⟨y, op⟩ := e
  cases op with
  | send ch' payload =>
    rcases step_send_cases p y ch' payload with ⟨hs, -⟩ | ⟨hs, hch⟩ | ⟨hok, hs⟩
    · have hother : y.other = x.other ↔ y = x := by cases x <;> cases y <;> decide
      left
      simp only [handed, accepted, call_res, call_op, hs, List.filter_cons, List.filter_nil]
      by_cases hxy : y = x <;> by_cases hch : ch' = ch <;>
        simp [hother, hxy, hch, Status.ok, Status.success]
    · have hnone : handed x.other ch (call step p ⟨y, .send ch' payload⟩) = [] :=
        handed_of_received_eq_nil (by rw [call_res, hs])
      by_cases hsame : ch' = ch
      · exact .inr ⟨hsame ▸ hch, hnone⟩
      · exact .inl (by rw [hnone]; simp [accepted, hsame])
    · left
      rw [handed_of_received_eq_nil hs]
      simp [accepted, hok]
  | _ =>
    left
    rw [handed_of_received_eq_nil (received_eq_nil (by simp))]
    rfl

/-- In every run of a loopback pair the reliable channels lose and reorder nothing. -/
theorem faithful_run (hr : Run createLoopbackPair h p) : Faithful h where
  reliable x ch hch := by
    refine List.flatMap_congr fun c hc => ?_
    rw [hr.call_of_mem hc]
    refine (handed_cases c.pre c.op x ch).resolve_right fun hdrop => ?_
    rw [hch] at hdrop
    cases hdrop.1
  unreliable x ch _ := by
    have hcall : ∀ c ∈ h, (handed x.other ch c).Sublist (accepted x ch c) := by
      intro c hc
      rw [hr.call_of_mem hc]
      rcases handed_cases c.pre c.op x ch with hsame | ⟨-, hnone⟩
      · rw [hsame]
      · rw [hnone]
        exact List.nil_sublist _
    clear hr
    induction h with
    | nil => exact List.Sublist.slnil
    | cons c h ih =>
      rw [delivered, sent, List.flatMap_cons, List.flatMap_cons]
      exact (hcall c (by simp)).append (ih fun d hd => hcall d (by simp [hd]))
  ownChannel c hc y ch payload hmem := by
    rw [hr.call_of_mem hc] at hmem
    exact (received_step hmem).1

theorem faithful_of_connected : Faithful (calls step createLoopbackPair
    [⟨.b, .setReceiveCallback true⟩, ⟨.a, .connect⟩, ⟨.a, .send .input [1]⟩,
      ⟨.a, .send .video [2]⟩, ⟨.a, .close⟩, ⟨.a, .send .input [3]⟩]) :=
  faithful_run (run_calls _ _)

def Connects (y : Side) (c : Call) : Prop := c.op = ⟨y, .connect⟩

def Closes (y : Side) (c : Call) : Prop := c.op = ⟨y, .close⟩

/-- Every end that the call `c` delivers to is connected, by a call to connect among the calls `a`
that it was not closed after. -/
def Attached (a : List Call) (c : Call) : Prop :=
  ∀ y ch payload, (y, ch, payload) ∈ c.res.received →
    (c.pre y).state = .connected ∧ Since (Connects y) (Closes y) a

/-- A connected end sends a payload within the cap to an end that has a receive callback and is not
connected itself. -/
def SendsAstray (c : Call) : Prop :=
  ∃ x ch payload, c.op = ⟨x, .send ch payload⟩ ∧ payload.length ≤ kMaxTransportMessage ∧
    (c.pre x).state = .connected ∧ (c.pre x.other).receiveCb = true ∧
      (c.pre x.other).state ≠ .connected

/-- The state of an end after a call is decided by its own connects and closes. -/
theorem connected_step (p : LoopbackPair) (e : Event) (y : Side) :
    ((step p e).2 y).state = .connected ↔ Connects y (call step p e) ∨
      ¬ Closes y (call step p e) ∧ (p y).state = .connected := by
  obtain ⟨x, op⟩ := e
  by_cases hx : x = y
  · subst hx
    cases op <;> simp [step, Connects, Closes]
  · have hy : y ≠ x := Ne.symm hx
    cases op <;> simp [step, Connects, Closes, hx, Function.update_of_ne hy]

theorem connected_iff (hr : Run createLoopbackPair h p) :
    (p y).state = .connected ↔ Since (Connects y) (Closes y) h := by
  induction hr with
  | nil => simp [createLoopbackPair]
  | snoc hr e ih => rw [connected_step, since_snoc, ih]

theorem attached_iff_step (hr : Run createLoopbackPair a p) :
    Attached a (call step p e) ↔ ¬ SendsAstray (call step p e) := by
  constructor
  · rintro hatt ⟨x, ch, payload, hop, hlen, hconn, hcb, hastray⟩
    rw [call_op] at hop
    rw [call_pre] at hconn hcb hastray
    subst hop
    have hmem : (x.other, ch, payload) ∈ (step p ⟨x, .send ch payload⟩).1.received := by
      simp only [step]
      rw [LoopbackTransport.send_of_receiver hconn hcb, if_neg (Nat.not_lt.mpr hlen)]
      exact List.mem_singleton_self _
    exact hastray (hatt x.other ch payload hmem).1
  · intro hn y ch payload hmem
    obtain ⟨hop, hconn, hlen, hcb⟩ := received_step hmem
    have hstate : (p y).state = .connected := by
      by_contra hastray
      refine hn ⟨y.other, ch, payload, hop, hlen, hconn, ?_, ?_⟩ <;> rw [Side.other_other]
      · exact hcb
      · exact hastray
    exact ⟨hstate, (connected_iff hr).mp hstate⟩

/-- In a run of a loopback pair every delivery reaches a connected end just when no connected end
sends to an end that has a receiver but is not connected. -/
theorem attached_iff (hr : Run createLoopbackPair h p) :
    Along Attached h ↔ ∀ c ∈ h, ¬ SendsAstray c := by
  rw [← along_forall]
  apply hr.along_iff (I := fun _ _ => True) trivial (fun _ _ _ _ _ _ => trivial)
  intro a p e ha _
  exact attached_iff_step ha

theorem attached_both_connected : Along Attached (calls step createLoopbackPair
    [⟨.b, .setReceiveCallback true⟩, ⟨.b, .connect⟩, ⟨.a, .connect⟩, ⟨.a, .send .input [1]⟩]) := by
  refine (attached_iff (run_calls _ _)).mpr ?_
  rintro c hc ⟨x, ch, payload, hop, -, -, -, hastray⟩
  simp only [calls, List.mem_cons, List.not_mem_nil, or_false] at hc
  rcases hc with rfl | rfl | rfl | rfl
  · cases hop
  · cases hop
  · cases hop
  · cases hop
    exact hastray rfl

/-- What is sent to an end that never connected is delivered. -/
theorem not_attached_idle : ¬ Along Attached (calls step createLoopbackPair
    [⟨.b, .setReceiveCallback true⟩, ⟨.a, .connect⟩, ⟨.a, .send .input [1]⟩]) := by
  intro hatt
  have hlast := hatt
    (calls step createLoopbackPair [⟨.b, .setReceiveCallback true⟩, ⟨.a, .connect⟩])
    (call step (final step createLoopbackPair [⟨.b, .setReceiveCallback true⟩, ⟨.a, .connect⟩])
      ⟨.a, .send .input [1]⟩) [] rfl
  have hidle := (hlast .b .input [1] (List.mem_singleton_self _)).1
  cases hidle

end Redesk.Transport.LoopbackPair
