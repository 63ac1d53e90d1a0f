import Redesk.Machine.Nested
import Redesk.Transport.Delivery

/-! Callbacks of a loopback pair that call into it again: a reply sent from a receive callback, an
end closed from a state callback. -/
namespace Redesk.Transport.LoopbackPair
open Machine

/-- The calls that run inside a callback. A callback that replaces itself is not meant. -/
abbrev Callback := Machine.Callback LoopbackPair Event Reply

/-- The states that the callback is called with, the pair then, the calls inside the callback and
the pair afterwards. -/
def setState (p : LoopbackPair) (x : Side) (s : TransportState) (cb : Callback) :
    List TransportState × LoopbackPair × List Call × LoopbackPair :=
  if (p x).state = s then ([], p, [], p)
  else
    let p := Function.update p x { p x with state := s }
    if (p x).stateCb then ([s], p, cb p) else ([], p, [], p)

/-- The status, what the callback of the peer is called with, the calls inside it and the pair
afterwards. -/
def send (p : LoopbackPair) (x : Side) (channel : Channel) (payload : Bytes) (cb : Callback) :
    Status × List (Side × Channel × Bytes) × List Call × LoopbackPair :=
  if (p x).state ≠ .connected then (.error .connectionLost "not connected", [], [], p)
  else if payload.length > kMaxTransportMessage then
    (.error .invalidArgument "payload exceeds 65535-byte transport cap", [], [], p)
  else if !(p x.other).receiveCb then
    if reliabilityFor channel = .reliableOrdered then
      (.error .connectionLost "peer has no receiver", [], [], p)
    else (.success, [], [], p)
  else
    let (log, p) := cb p
    (.success, [(x.other, channel, payload)], log, p)

/-- One call while callbacks run inside it. -/
def enter (p : LoopbackPair) (e : Event) (cb : Callback) : List Call × LoopbackPair :=
  match e.op with
  | .setReceiveCallback b =>
    let q := Function.update p e.side { p e.side with receiveCb := b }
    ([⟨p, e, {}, q⟩], q)
  | .setStateCallback b =>
    let q := Function.update p e.side { p e.side with stateCb := b }
    ([⟨p, e, {}, q⟩], q)
  | .connect =>
    let (notified, q, log, r) := p.setState e.side .connected cb
    (⟨p, e, { notified := notified }, q⟩ :: log, r)
  | .send channel payload =>
    let (status, received, log, q) := p.send e.side channel payload cb
    (⟨p, e, { status := status, received := received }, p⟩ :: log, q)
  | .close =>
    let (notified, q, log, r) := p.setState e.side .closed cb
    (⟨p, e, { notified := notified }, q⟩ :: log, r)

/-- What an end is notified of in a call. -/
def notifiedOf (x : Side) (c : Call) : List TransportState :=
  if c.op.side = x then c.res.notified else []

/-- What holds however callbacks call into the pair again. -/
structure Serial (p : LoopbackPair) (log : List Call) (q : LoopbackPair) : Prop where
  /-- Each call meets the state that the one that began before it made. -/
  flat : Run p log q
  /-- On the reliable channels everything that was sent is received, in the order of the sends. -/
  reliable : ∀ x ch, reliabilityFor ch = .reliableOrdered → delivered x.other ch log = sent x ch log
  /-- An end that is notified all the time follows its state, one change after another. -/
  tracked : ∀ x, (p x).stateCb = true → (∀ c ∈ log, c.op ≠ ⟨x, .setStateCallback false⟩) →
    ((p x).state :: log.flatMap (notifiedOf x)).IsChain (· ≠ ·) ∧
      ((p x).state :: log.flatMap (notifiedOf x)).getLast? = some (q x).state

variable {p q : LoopbackPair} {e : Event} {x : Side}

/-- A change of state is over when the callback is called. -/
theorem run_setState (p : LoopbackPair) (x : Side) (s : TransportState) {cb : Callback}
    (hcb : ∀ p, Run p (cb p).1 (cb p).2) :
    (p.setState x s cb).1 = ((p x).setState s).1 ∧
      (p.setState x s cb).2.1 = Function.update p x ((p x).setState s).2 ∧
      Run (p.setState x s cb).2.1 (p.setState x s cb).2.2.1 (p.setState x s cb).2.2.2 := by
  unfold setState LoopbackTransport.setState
  by_cases hs : (p x).state = s
  · rw [if_pos hs, if_pos hs, Function.update_eq_self]
    exact ⟨rfl, rfl, .nil⟩
  rw [if_neg hs, if_neg hs]
  simp only [Function.update_self]
  by_cases hstate : (p x).stateCb = true
  · rw [if_pos hstate, if_pos hstate]
    exact ⟨rfl, rfl, hcb _⟩
  · rw [if_neg hstate, if_neg hstate]
    exact ⟨rfl, rfl, .nil⟩

/-- A call to send changes nothing. -/
theorem run_send (p : LoopbackPair) (x : Side) (channel : Channel) (payload : Bytes)
    {cb : Callback} (hcb : ∀ p, Run p (cb p).1 (cb p).2) :
    (p.send x channel payload cb).1 = ((p x).send (some (p x.other)) channel payload).1 ∧
      (p.send x channel payload cb).2.1 =
        ((p x).send (some (p x.other)) channel payload).2.map (fun r => (x.other, r)) ∧
      Run p (p.send x channel payload cb).2.2.1 (p.send x channel payload cb).2.2.2 := by
  unfold send LoopbackTransport.send
  rw [Option.any_some]
  split_ifs
  · exact ⟨rfl, rfl, .nil⟩
  · exact ⟨rfl, rfl, .nil⟩
  · exact ⟨rfl, rfl, .nil⟩
  · exact ⟨rfl, rfl, .nil⟩
  · exact ⟨rfl, rfl, hcb p⟩

theorem callsBackLast : CallsBackLast step enter := by
  intro cb hcb p e
  obtain ⟨x, op⟩ := e
  cases op with
  | setReceiveCallback b => exact .cons rfl .nil
  | setStateCallback b => exact .cons rfl .nil
  | connect =>
    obtain ⟨hnotified, hpost, hrun⟩ := run_setState p x .connected hcb
    have hc : ⟨p, ⟨x, .connect⟩, { notified := (p.setState x .connected cb).1 },
        (p.setState x .connected cb).2.1⟩ = call step p ⟨x, .connect⟩ := by
      rw [hnotified, hpost]
      rfl
    exact .cons hc hrun
  | send channel payload =>
    obtain ⟨hstatus, hreceived, hrun⟩ := run_send p x channel payload hcb
    have hc : ⟨p, ⟨x, .send channel payload⟩,
        { status := (p.send x channel payload cb).1
          received := (p.send x channel payload cb).2.1 }, p⟩ =
          call step p ⟨x, .send channel payload⟩ := by
      rw [hstatus, hreceived]
      rfl
    exact .cons hc hrun
  | close =>
    obtain ⟨hnotified, hpost, hrun⟩ := run_setState p x .closed hcb
    have hc : ⟨p, ⟨x, .close⟩, { notified := (p.setState x .closed cb).1 },
        (p.setState x .closed cb).2.1⟩ = call step p ⟨x, .close⟩ := by
      rw [hnotified, hpost]
      rfl
    exact .cons hc hrun

theorem reliable_run {log : List Call} {ch : Channel} (hr : Run p log q)
    (hch : reliabilityFor ch = .reliableOrdered) : delivered x.other ch log = sent x ch log := by
  apply List.flatMap_congr
  intro c hc
  rw [hr.call_of_mem hc]
  rcases handed_cases c.pre c.op x ch with hsame | ⟨hdrop, -⟩
  · exact hsame
  · rw [hch] at hdrop
    cases hdrop

/-- With a state callback an end is told each change of its state. -/
theorem notifiedOf_call (hcb : (p x).stateCb = true) :
    notifiedOf x (call step p e) = if ((step p e).2 x).state = (p x).state then []
      else [((step p e).2 x).state] := by
  obtain ⟨y, op⟩ := e
  by_cases hy : y = x
  · subst hy
    cases op with
    | connect | close =>
      simp only [notifiedOf, step, call_op, call_res, Function.update_self,
        LoopbackTransport.setState_state, if_true]
      unfold LoopbackTransport.setState
      split
      · rename_i hs
        rw [if_pos hs.symm]
      · rename_i hs
        rw [if_neg (Ne.symm hs)]
    | _ => simp [notifiedOf, step]
  · have hx : x ≠ y := Ne.symm hy
    cases op <;> simp [notifiedOf, step, hy, Function.update_of_ne hx]

theorem stateCb_step (hcb : (p x).stateCb = true) (he : e ≠ ⟨x, .setStateCallback false⟩) :
    ((step p e).2 x).stateCb = true := by
  obtain ⟨y, op⟩ := e
  by_cases hy : y = x
  · subst hy
    cases op with
    | connect | close =>
      simp only [step, Function.update_self]
      unfold LoopbackTransport.setState
      split
      · exact hcb
      · exact hcb
    | setStateCallback b =>
      cases b
      · exact absurd rfl he
      · simp [step]
    | _ => simp [step, hcb]
  · have hx : x ≠ y := Ne.symm hy
    cases op <;> simp [step, hcb, Function.update_of_ne hx]

theorem tracked_run {log : List Call} (hr : Run p log q) (hcb : (p x).stateCb = true)
    (hkept : ∀ c ∈ log, c.op ≠ ⟨x, .setStateCallback false⟩) :
    (q x).stateCb = true ∧ ((p x).state :: log.flatMap (notifiedOf x)).IsChain (· ≠ ·) ∧
      ((p x).state :: log.flatMap (notifiedOf x)).getLast? = some (q x).state := by
  induction hr with
  | nil => exact ⟨hcb, List.isChain_singleton _, rfl⟩
  | @snoc log s hr e ih =>
    obtain ⟨hcb', hchain, hlast⟩ := ih fun c hc => hkept c (List.mem_append_left _ hc)
    have hop : e ≠ ⟨x, .setStateCallback false⟩ := hkept (call step s e) (by simp)
    refine ⟨stateCb_step hcb' hop, ?_⟩
    rw [List.flatMap_append, List.flatMap_singleton, notifiedOf_call hcb', ← List.cons_append]
    by_cases hsame : ((step s e).2 x).state = (s x).state
    · rw [if_pos hsame, List.append_nil, hsame]
      exact ⟨hchain, hlast⟩
    · rw [if_neg hsame, List.isChain_append, List.getLast?_concat]
      refine ⟨⟨hchain, List.isChain_singleton _, ?_⟩, rfl⟩
      intro s₁ hs₁ s₂ hs₂
      rw [hlast, Option.mem_some] at hs₁
      rw [List.head?_cons, Option.mem_some] at hs₂
      rw [← hs₁, ← hs₂]
      exact Ne.symm hsame

/-- A question is answered inside its delivery, and the end that asked is closed inside the
answer. -/
example : ((execAll enter
    [.call ⟨.a, .setReceiveCallback true⟩ [], .call ⟨.b, .setReceiveCallback true⟩ [],
      .call ⟨.a, .connect⟩ [], .call ⟨.b, .connect⟩ [],
      .call ⟨.a, .send .control [1]⟩ [.call ⟨.b, .send .control [2]⟩ [.call ⟨.a, .close⟩ []]],
      .call ⟨.a, .send .control [3]⟩ []] createLoopbackPair).1.map fun c =>
        (c.res.status.ok, c.res.received)) =
    [(true, []), (true, []), (true, []), (true, []), (true, [(.b, .control, [1])]),
      (true, [(.a, .control, [2])]), (true, []), (false, [])] := by decide

end Redesk.Transport.LoopbackPair
