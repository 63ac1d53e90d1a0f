import Redesk.Crypto.Link

/-! What the handshake gives the two sides of a link: complete sessions that know each other's key,
whatever the order of its four steps, and a channel binding. -/
namespace Redesk
open Machine

namespace NoiseSession

variable {s s₀ : NoiseSession} {h : List Call} {op : Op}

theorem localStatic_run (hr : Run s₀ h s) : s.localStatic = s₀.localStatic := by
  induction hr with
  | nil => rfl
  | snoc hr op ih => rw [localStatic_step, ih]

theorem writeMessage_ok {payload message : Bytes}
    (hm : (s.step (.writeMessage payload)).1 = .ok message) :
    message = s.localStatic.publicKey.toList ++ payload := by
  have he := step_exit s (.writeMessage payload)
  generalize (s.step (.writeMessage payload)).1 = r,
    (s.step (.writeMessage payload)).2 = s' at he hm
  cases he with
  | failed op e hf => cases hm
  | wrote payload hd => exact (Except.ok.inj hm).symm

/-- A session that heard a message, every one of which came from `k`, has `k` as its remote key. -/
theorem remoteStatic_of_heard {k : PublicKey} (hr : Run s₀ h s)
    (hk : ∀ c ∈ h, ∀ message, c.op = .readMessage message → message.take 32 = k.toList)
    (hh : ∃ c ∈ h, heard c = true) : s.remoteStatic = k := by
  induction hr with
  | nil => simp at hh
  | @snoc h s hr op ih =>
    have hlast := hk (call step s op) (by simp)
    have ih := ih fun c hc => hk c (List.mem_append_left _ hc)
    have he := step_exit s op
    have hheard : (∃ c ∈ h, heard c = true) ∨
        heard ⟨s, op, (s.step op).1, (s.step op).2⟩ = true := by
      obtain ⟨c, hc, hcall⟩ := hh
      rcases List.mem_append.mp hc with hc | hc
      · exact .inl ⟨c, hc, hcall⟩
      · rw [List.mem_singleton.mp hc] at hcall
        exact .inr hcall
    rw [call_op] at hlast
    generalize (s.step op).1 = r, (s.step op).2 = s' at he hheard
    cases he with
    | read message hd hl =>
      rw [maybeComplete_remoteStatic, ← Vector.toList_inj, toList_senderKey]
      exact hlast message rfl
    | failed op e hf =>
      apply ih
      refine hheard.resolve_right ?_
      cases op <;> exact Bool.false_ne_true
    | wrote payload hd =>
      rw [maybeComplete_remoteStatic]
      exact ih (hheard.resolve_right Bool.false_ne_true)
    | encrypted plaintext ad hd hl => exact ih (hheard.resolve_right Bool.false_ne_true)
    | decrypted ciphertext ad hd hl hn => exact ih (hheard.resolve_right Bool.false_ne_true)

/-- A session that has not heard anything cannot be complete. -/
theorem heard_of_done {pattern : NoisePattern} {role : HandshakeRole} {loc : Identity}
    {remote : PublicKey} (hr : Run (create pattern role loc remote) h s)
    (hd : s.handshakeDone = true) : ∃ c ∈ h, heard c = true := by
  have hquiet : (∃ c ∈ h, heard c = true) ∨ s.messagesRead = 0 ∧ s.handshakeDone = false := by
    clear hd
    induction hr with
    | nil => exact .inr ⟨rfl, rfl⟩
    | @snoc h s hr op ih =>
      rcases ih with ⟨c, hc, hcall⟩ | ⟨hzero, hopen⟩
      · exact .inl ⟨c, List.mem_append_left _ hc, hcall⟩
      have he := step_exit s op
      have hlast : heard ⟨s, op, (s.step op).1, (s.step op).2⟩ = true →
          ∃ c ∈ h ++ [call step s op], heard c = true := fun hh => ⟨call step s op, by simp, hh⟩
      generalize (s.step op).1 = r, (s.step op).2 = s' at he hlast
      cases he with
      | failed op e hf => exact .inr ⟨hzero, hopen⟩
      | wrote payload hd => simp [maybeComplete, hzero, hopen]
      | read message hd hl => exact .inl (hlast rfl)
      | encrypted plaintext ad hd hl => rw [hopen] at hd; cases hd
      | decrypted ciphertext ad hd hl hn => rw [hopen] at hd; cases hd
  refine hquiet.resolve_right ?_
  rintro ⟨-, hopen⟩
  rw [hopen] at hd
  cases hd

/-- A first write goes through. -/
theorem Phase.firstWrite {w n : ℕ} (hi : Phase w n s) (payload : Bytes) (hw : w = 0)
    (hn : n < 2 ^ 31) :
    (s.step (.writeMessage payload)).1 = .ok (s.localStatic.publicKey.toList ++ payload) ∧
      Phase 1 n (s.step (.writeMessage payload)).2 ∧
      (s.step (.writeMessage payload)).2.remoteStatic = s.remoteStatic := by
  subst hw
  have hopen : s.handshakeDone = false := by
    rw [← Bool.not_eq_true, hi.done]
    omega
  have he := step_exit s (.writeMessage payload)
  generalize (s.step (.writeMessage payload)).1 = r, (s.step (.writeMessage payload)).2 = s' at he
  have hnext := hi.step he
  cases he with
  | failed op e hf => exact absurd hopen hf
  | wrote payload hd => exact ⟨rfl, hnext (Nat.one_lt_two_pow (by omega)) hn, by simp⟩

/-- A first read of a message that is long enough goes through. -/
theorem Phase.firstRead {w n : ℕ} (hi : Phase w n s) (message : Bytes) (hn : n = 0)
    (hw : w < 2 ^ 31) (hl : 32 ≤ message.length) :
    (s.step (.readMessage message)).1 = .ok (message.drop 32) ∧
      Phase w 1 (s.step (.readMessage message)).2 ∧
      (s.step (.readMessage message)).2.remoteStatic.toList = message.take 32 := by
  subst hn
  have hopen : s.handshakeDone = false := by
    rw [← Bool.not_eq_true, hi.done]
    omega
  have he := step_exit s (.readMessage message)
  generalize (s.step (.readMessage message)).1 = r, (s.step (.readMessage message)).2 = s' at he
  have hnext := hi.step he
  cases he with
  | failed op e hf => exact absurd ⟨hopen, hl⟩ hf
  | read message hd _ => exact ⟨rfl, hnext hw (Nat.one_lt_two_pow (by omega)), by simp⟩

/-- The two phases of a session that made the calls `h`: the handshake, then the transport. -/
structure Phased (h : List Call) (s : NoiseSession) : Prop where
  complete : s.isHandshakeComplete = true ↔ (∃ c ∈ h, wrote c = true) ∧ ∃ c ∈ h, heard c = true
  before : s.isHandshakeComplete = false → ∀ text ad,
    (s.encrypt text ad).1.isOk = false ∧ (s.decrypt text ad).1.isOk = false
  after : s.isHandshakeComplete = true → ∀ message,
    (s.writeMessage message).1.isOk = false ∧ (s.readMessage message).1.isOk = false
  unchanged : ∀ op, (s.step op).1.isOk = false → (s.step op).2 = s

theorem phased {pattern : NoisePattern} {role : HandshakeRole} {loc : Identity}
    {remote : PublicKey} (hr : Run (create pattern role loc remote) h s)
    (hb : h.countP exchanges < 2 ^ 31) : Phased h s where
  complete := by
    have hphase := phase_run hr hb
    rw [isHandshakeComplete, hphase.done, Nat.one_le_iff_ne_zero, Nat.one_le_iff_ne_zero,
      ← Nat.pos_iff_ne_zero, ← Nat.pos_iff_ne_zero, List.countP_pos_iff, List.countP_pos_iff]
  before hopen text ad := by
    have hd : s.handshakeDone = false := hopen
    simp only [encrypt, decrypt, hd]
    exact ⟨rfl, rfl⟩
  after hdone message := by
    have hd : s.handshakeDone = true := hdone
    simp only [writeMessage, readMessage, hd]
    exact ⟨rfl, rfl⟩
  unchanged op hf := step_of_failed hf

end NoiseSession

namespace Link

variable {pattern : Side → NoisePattern} {role : Side → HandshakeRole} {ids : Side → Identity}
  {remote : Side → PublicKey} {payload : Side → Bytes} {l : Link} {h : List Call} {x : Side}

/-- The four steps of the handshake. -/
def steps (payload : Side → Bytes) : List Event :=
  [.write .a (payload .a), .write .b (payload .b), .read .a 0, .read .b 0]

/-- The four steps in an order in which each read follows the matching write. -/
def Handshake (payload : Side → Bytes) (order : List Event) : Prop :=
  order.Perm (steps payload) ∧
    Along (fun earlier e => ∀ x, e = .read x 0 → .write x.other (payload x.other) ∈ earlier) order

/-- Where the sides stand after some of the steps. -/
structure Stage (ids : Side → Identity) (payload : Side → Bytes) (past : List Event) (l : Link) :
    Prop where
  phase : ∀ x, NoiseSession.Phase (past.count (.write x (payload x))) (past.count (.read x 0))
    (l.session x)
  own : ∀ x, (l.session x).localStatic = ids x
  messages : ∀ x, l.messages x =
    List.replicate (past.count (.write x (payload x))) ((ids x).publicKey.toList ++ payload x)
  remote : ∀ x, .read x 0 ∈ past → (l.session x).remoteStatic = (ids x.other).publicKey

theorem request_write (y : Side) (p : Bytes) :
    l.request (.write y p) = some (y, .writeMessage p) := rfl

theorem count_snoc (past : List Event) (e e' : Event) :
    (past ++ [e]).count e' = past.count e' + if e = e' then 1 else 0 := by
  rw [List.count_append, List.count_singleton]
  simp [beq_iff_eq]

/-- A call on one session leaves both sides their identities. -/
theorem own_step (hi : ∀ y, (l.session y).localStatic = ids y) (op : NoiseSession.Op) (y : Side) :
    (Function.update l.session x ((l.session x).step op).2 y).localStatic = ids y := by
  rcases eq_or_ne y x with rfl | hy
  · rw [Function.update_self, NoiseSession.localStatic_step, hi]
  · rw [Function.update_of_ne hy, hi]

theorem stage_create : Stage ids payload [] (create pattern role ids remote) where
  phase x := NoiseSession.phase_create ..
  own _ := rfl
  messages _ := rfl
  remote x hx := by cases hx

/-- A first write goes through, and the message carries the writer's key. -/
theorem Stage.write {past : List Event} (hi : Stage ids payload past l)
    (hn : .write x (payload x) ∉ past) (hr : past.count (.read x 0) ≤ 1) :
    (l.step (.write x (payload x))).1 = some (.ok ((ids x).publicKey.toList ++ payload x)) ∧
      Stage ids payload (past ++ [.write x (payload x)]) (l.step (.write x (payload x))).2 := by
  have hzero : past.count (.write x (payload x)) = 0 := List.count_eq_zero.mpr hn
  obtain ⟨hreply, hphase, hremote⟩ := (hi.phase x).firstWrite (payload x) hzero (by omega)
  rw [hi.own x] at hreply
  rw [step_of_request (request_write x (payload x)), hreply]
  refine ⟨rfl, ?_, own_step hi.own _, ?_, ?_⟩
  · intro y
    rcases eq_or_ne y x with rfl | hy
    · simpa [count_snoc, hzero] using hphase
    · simpa [count_snoc, Function.update_of_ne hy, hy.symm] using hi.phase y
  · intro y
    rcases eq_or_ne y x with rfl | hy
    · simp [carry, hzero, hi.messages y]
    · simpa [carry, count_snoc, Function.update_of_ne hy, hy.symm] using hi.messages y
  · intro y hy
    have hpast : .read y 0 ∈ past := by simpa using hy
    rcases eq_or_ne y x with rfl | hne
    · simpa [hremote] using hi.remote y hpast
    · simpa [Function.update_of_ne hne] using hi.remote y hpast

/-- A first read of a message that was written goes through: it gives the payload and the key. -/
theorem Stage.read {past : List Event} (hi : Stage ids payload past l)
    (hn : .read x 0 ∉ past) (hw : past.count (.write x (payload x)) ≤ 1)
    (hsent : .write x.other (payload x.other) ∈ past) :
    (l.step (.read x 0)).1 = some (.ok (payload x.other)) ∧
      Stage ids payload (past ++ [.read x 0]) (l.step (.read x 0)).2 := by
  have hzero : past.count (.read x 0) = 0 := List.count_eq_zero.mpr hn
  have hq : l.request (.read x 0) =
      some (x, .readMessage ((ids x.other).publicKey.toList ++ payload x.other)) := by
    have hpos := List.count_pos_iff.mpr hsent
    simp [request, hi.messages, hpos]
  obtain ⟨hreply, hphase, hremote⟩ := (hi.phase x).firstRead
    ((ids x.other).publicKey.toList ++ payload x.other) hzero (by omega) (by simp)
  rw [step_of_request hq, hreply]
  refine ⟨by simp, ?_, own_step hi.own _, ?_, ?_⟩
  · intro y
    rcases eq_or_ne y x with rfl | hy
    · simpa [count_snoc, hzero] using hphase
    · simpa [count_snoc, Function.update_of_ne hy, hy.symm] using hi.phase y
  · intro y
    simpa [carry, count_snoc] using hi.messages y
  · intro y hy
    rcases eq_or_ne y x with rfl | hne
    · rw [← Vector.toList_inj]
      simpa using hremote
    · have hpast : .read y 0 ∈ past := by simpa [hne] using hy
      simpa [Function.update_of_ne hne] using hi.remote y hpast

/-- Everything goes through, and both sides end complete, with the other's payload and key. -/
structure Exchanged (ids : Side → Identity) (payload : Side → Bytes) (h : List Call) (l : Link) :
    Prop where
  accepted : ∀ c ∈ h, ∃ reply, c.res = some (.ok reply)
  payloads : ∀ c ∈ h, ∀ x, c.op = .read x 0 → c.res = some (.ok (payload x.other))
  keys : ∀ x, (l.session x).remoteStaticKey = (ids x.other).publicKey
  complete : ∀ x, (l.session x).isHandshakeComplete = true

theorem mem_steps {e : Event} :
    e ∈ steps payload ↔ ∃ x, e = .write x (payload x) ∨ e = .read x 0 := by
  simp only [steps, List.mem_cons, List.not_mem_nil, or_false]
  constructor
  · rintro (rfl | rfl | rfl | rfl)
    · exact ⟨.a, .inl rfl⟩
    · exact ⟨.b, .inl rfl⟩
    · exact ⟨.a, .inr rfl⟩
    · exact ⟨.b, .inr rfl⟩
  · rintro ⟨x, rfl | rfl⟩ <;> cases x <;> simp

/-- A step that is still missing goes through. -/
theorem Stage.step {past : List Event} {e : Event} (hi : Stage ids payload past l)
    (hd : past.Nodup) (hfresh : e ∉ past) (he : e ∈ steps payload)
    (hsent : ∀ x, e = .read x 0 → .write x.other (payload x.other) ∈ past) :
    Stage ids payload (past ++ [e]) (l.step e).2 ∧ (∃ reply, (l.step e).1 = some (.ok reply)) ∧
      ∀ x, e = .read x 0 → (l.step e).1 = some (.ok (payload x.other)) := by
  have hone (e : Event) : past.count e ≤ 1 := List.nodup_iff_count_le_one.mp hd e
  obtain ⟨x, rfl | rfl⟩ := mem_steps.mp he
  · obtain ⟨hreply, hnext⟩ := hi.write hfresh (hone _)
    refine ⟨hnext, ⟨_, hreply⟩, ?_⟩
    intro y hy
    cases hy
  · obtain ⟨hreply, hnext⟩ := hi.read hfresh (hone _) (hsent x rfl)
    refine ⟨hnext, ⟨_, hreply⟩, ?_⟩
    intro y hy
    obtain ⟨rfl, -⟩ := Event.read.inj hy
    exact hreply

theorem stage_run (hr : Run (create pattern role ids remote) h l) (hd : (h.map (·.op)).Nodup)
    (hs : ∀ e ∈ h.map (·.op), e ∈ steps payload)
    (hw : Along (fun earlier e => ∀ x, e = .read x 0 → .write x.other (payload x.other) ∈ earlier)
      (h.map (·.op))) :
    Stage ids payload (h.map (·.op)) l ∧ ∀ c ∈ h, (∃ reply, c.res = some (.ok reply)) ∧
      ∀ x, c.op = .read x 0 → c.res = some (.ok (payload x.other)) := by
  induction hr with
  | nil => exact ⟨stage_create, by simp⟩
  | @snoc h l hr e ih =>
    rw [List.map_append, List.map_singleton, call_op] at hd hs hw ⊢
    obtain ⟨hw, hlast⟩ := along_snoc.mp hw
    obtain ⟨hd, -, hnew⟩ := List.nodup_append.mp hd
    have hfresh : e ∉ h.map (·.op) := fun he => hnew e he e (by simp) rfl
    obtain ⟨hstage, hcalls⟩ := ih hd (fun e he => hs e (List.mem_append_left _ he)) hw
    have hstep := hstage.step hd hfresh (hs e (by simp)) hlast
    refine ⟨hstep.1, fun c hc => ?_⟩
    rcases List.mem_append.mp hc with hc | hc
    · exact hcalls c hc
    · rw [List.mem_singleton.mp hc]
      exact hstep.2

theorem exchanged (hr : Run (create pattern role ids remote) h l)
    (ho : Handshake payload (h.map (·.op))) : Exchanged ids payload h l := by
  obtain ⟨hperm, hw⟩ := ho
  have hnodup : (steps payload).Nodup := by simp [steps]
  obtain ⟨hstage, hcalls⟩ := stage_run hr (hperm.nodup_iff.mpr hnodup)
    (fun e he => hperm.mem_iff.mp he) hw
  have hread (x : Side) : Event.read x 0 ∈ h.map (·.op) :=
    hperm.mem_iff.mpr (mem_steps.mpr ⟨x, .inr rfl⟩)
  have hwrite (x : Side) : Event.write x (payload x) ∈ h.map (·.op) :=
    hperm.mem_iff.mpr (mem_steps.mpr ⟨x, .inl rfl⟩)
  constructor
  · exact fun c hc => (hcalls c hc).1
  · exact fun c hc => (hcalls c hc).2
  · exact fun x => hstage.remote x (hread x)
  · intro x
    rw [NoiseSession.isHandshakeComplete, (hstage.phase x).done]
    exact ⟨List.count_pos_iff.mpr (hwrite x), List.count_pos_iff.mpr (hread x)⟩

/-- A session is in one of two phases throughout a run that is too short to wrap its counters, and
the four steps of a handshake, in every order they can be made, take both sides to the second. -/
theorem phased_and_exchanged {s : NoiseSession} {hs : List NoiseSession.Call} {pat : NoisePattern}
    {rol : HandshakeRole} {loc : Identity} {rem : PublicKey}
    (hn : NoiseSession.Run (.create pat rol loc rem) hs s)
    (hb : hs.countP NoiseSession.exchanges < 2 ^ 31)
    (hr : Run (create pattern role ids remote) h l) (ho : Handshake payload (h.map (·.op))) :
    NoiseSession.Phased hs s ∧ Exchanged ids payload h l :=
  ⟨NoiseSession.phased hn hb, exchanged hr ho⟩

/-- Two XK sessions that know nothing of each other. -/
def fresh (ids : Side → Identity) : Link :=
  create (fun _ => .xk) (fun | .a => .initiator | .b => .responder) ids
    fun _ => Vector.replicate 32 0

theorem phased_and_exchanged_read_first :
    NoiseSession.Phased (calls NoiseSession.step (.create .kk .initiator {} (Vector.replicate 32 0))
        [.writeMessage [1], .encrypt [2] []])
      (final NoiseSession.step (.create .kk .initiator {} (Vector.replicate 32 0))
        [.writeMessage [1], .encrypt [2] []]) ∧
    Exchanged (fun _ => {}) (fun _ => [7])
      (calls step (fresh fun _ => {}) [.write .b [7], .read .a 0, .write .a [7], .read .b 0])
      (final step (fresh fun _ => {}) [.write .b [7], .read .a 0, .write .a [7], .read .b 0]) := by
  refine phased_and_exchanged (run_calls _ _) (by decide) (run_calls _ _) ⟨by decide, ?_⟩
  simp [calls, along_cons, along_nil]
  decide

/-- Side `x` has read a handshake message of the other side. -/
def Met (x : Side) (h : List Call) : Prop :=
  ∃ c ∈ h, ∃ i payload, c.op = .read x i ∧ c.res = some (.ok payload)

theorem handshake_steps : Handshake payload (steps payload) := by
  refine ⟨.refl _, ?_⟩
  simp only [steps, along_cons]
  refine ⟨?_, ?_, ?_, ?_, along_nil⟩ <;> intro x hx <;> cases hx <;> simp [Side.other]

theorem met_steps (ids : Side → Identity) (x : Side) :
    Met x (calls step (fresh ids) (steps fun _ => [])) := by
  have hr : Run (fresh ids) (calls step (fresh ids) (steps fun _ => [])) _ := run_calls _ _
  have hmap : (calls step (fresh ids) (steps fun _ => [])).map (·.op) = steps fun _ => [] :=
    map_op_calls _ _
  have he : Exchanged ids (fun _ => []) _ _ := exchanged hr (hmap.symm ▸ handshake_steps)
  have hread : Event.read x 0 ∈ (calls step (fresh ids) (steps fun _ => [])).map (·.op) := by
    rw [hmap]
    exact mem_steps.mpr ⟨x, .inr rfl⟩
  obtain ⟨c, hc, hop⟩ := List.mem_map.mp hread
  exact ⟨c, hc, 0, [], hop, he.payloads c hc x hop⟩

/-- A step leaves the messages of a side alone, or is a write of that side, which adds one. -/
theorem messages_step {e : Event} (x : Side) : (l.step e).2.messages x = l.messages x ∨
    (∃ d, view x (call step l e) = some d ∧ NoiseSession.wrote d = true) ∧
      ∃ payload, (l.step e).2.messages x =
        l.messages x ++ [(l.session x).localStatic.publicKey.toList ++ payload] := by
  cases hq : l.request e with
  | none => exact .inl (by rw [step_of_request_none hq])
  | some q =>
    obtain ⟨y, op⟩ := q
    rw [step_of_request hq]
    cases op with
    | writeMessage payload =>
      cases hr : ((l.session y).step (.writeMessage payload)).1 with
      | error e => exact .inl rfl
      | ok message =>
        rcases eq_or_ne x y with rfl | hne
        · refine .inr ⟨⟨_, view_eq_some.mpr ⟨_, hq, rfl⟩, ?_⟩, payload, ?_⟩
          · show ((l.session x).step (.writeMessage payload)).1.isOk = true
            rw [hr]
            rfl
          · simp [carry, NoiseSession.writeMessage_ok hr]
        · exact .inl (by simp [carry, Function.update_of_ne hne])
    | readMessage message => exact .inl rfl
    | encrypt plaintext ad =>
      cases ((l.session y).step (.encrypt plaintext ad)).1 <;> exact .inl rfl
    | decrypt ciphertext ad =>
      cases ((l.session y).step (.decrypt ciphertext ad)).1 <;> exact .inl rfl

theorem own_run (hr : Run (create pattern role ids remote) h l) (x : Side) :
    (l.session x).localStatic = ids x :=
  NoiseSession.localStatic_run (view_run hr x)

/-- Every handshake message in transit starts with its writer's key. -/
theorem signed (hr : Run (create pattern role ids remote) h l) {message : Bytes}
    (hm : message ∈ l.messages x) : message.take 32 = (ids x).publicKey.toList := by
  induction hr with
  | nil => cases hm
  | @snoc h l hr e ih =>
    rcases messages_step (l := l) (e := e) x with hs | ⟨-, payload, hs⟩
    · rw [hs] at hm
      exact ih hm
    · rw [hs, own_run hr x] at hm
      rcases List.mem_append.mp hm with hm | hm
      · exact ih hm
      · rw [List.mem_singleton.mp hm]
        simp

theorem remote_of_heard (hr : Run (create pattern role ids remote) h l)
    (hh : ∃ d ∈ h.filterMap (view x), NoiseSession.heard d = true) :
    (l.session x).remoteStatic = (ids x.other).publicKey := by
  refine NoiseSession.remoteStatic_of_heard (view_run hr x) ?_ hh
  intro d hd message hop
  obtain ⟨c, hc, hview⟩ := List.mem_filterMap.mp hd
  obtain ⟨op, hq, rfl⟩ := view_eq_some.mp hview
  rw [call_op] at hop
  subst hop
  obtain ⟨i, -, hi⟩ := request_readMessage hq
  -- the message was there when the call was made
  obtain ⟨a, b, rfl⟩ := List.append_of_mem hc
  exact signed hr.split.1 (List.mem_of_getElem? hi)

theorem remote_of_done (hr : Run (create pattern role ids remote) h l)
    (hd : (l.session x).handshakeDone = true) :
    (l.session x).remoteStatic = (ids x.other).publicKey :=
  remote_of_heard hr (NoiseSession.heard_of_done (view_run hr x) hd)

/-- A message in transit was written by a call of its side. -/
theorem wrote_of_message (hr : Run (create pattern role ids remote) h l) {message : Bytes}
    (hm : message ∈ l.messages x) : ∃ d ∈ h.filterMap (view x), NoiseSession.wrote d = true := by
  induction hr with
  | nil => cases hm
  | @snoc h l hr e ih =>
    rw [List.filterMap_append]
    rcases messages_step (l := l) (e := e) x with hs | ⟨⟨d, hview, hd⟩, -⟩
    · rw [hs] at hm
      obtain ⟨d, hmem, hd⟩ := ih hm
      exact ⟨d, List.mem_append_left _ hmem, hd⟩
    · exact ⟨d, List.mem_append_right _ (by simp [hview]), hd⟩

/-- A side that has read a message has heard one that the other side wrote. -/
theorem heard_of_met (hr : Run (create pattern role ids remote) h l) (hm : Met x h) :
    (∃ d ∈ h.filterMap (view x), NoiseSession.heard d = true) ∧
      ∃ d ∈ h.filterMap (view x.other), NoiseSession.wrote d = true := by
  obtain ⟨c, hc, i, payload, hop, hres⟩ := hm
  have hcall := hr.call_of_mem hc
  cases hi : (c.pre.messages x.other)[i]? with
  | none =>
    have hq : c.pre.request c.op = none := by simp [hop, request, hi]
    rw [hcall, call_res, step_of_request_none hq] at hres
    cases hres
  | some message =>
    have hq : c.pre.request c.op = some (x, .readMessage message) := by simp [hop, request, hi]
    rw [hcall, call_res, step_of_request hq, Option.some_inj] at hres
    constructor
    · refine ⟨_, List.mem_filterMap.mpr ⟨c, hc, view_eq_some.mpr ⟨_, hq, rfl⟩⟩, ?_⟩
      show ((c.pre.session x).step (.readMessage message)).1.isOk = true
      rw [hres]
      rfl
    · obtain ⟨a, b, rfl⟩ := List.append_of_mem hc
      obtain ⟨d, hmem, hd⟩ := wrote_of_message hr.split.1 (List.mem_of_getElem? hi)
      exact ⟨d, by rw [List.filterMap_append]; exact List.mem_append_left _ hmem, hd⟩

theorem remote_of_met (hr : Run (create pattern role ids remote) h l) (hm : Met x h) :
    (l.session x).remoteStatic = (ids x.other).publicKey :=
  remote_of_heard hr (heard_of_met hr hm).1

/-- After both sides have read, they bind to the same value just when the hash does not tell the
two orders of the keys apart. -/
theorem handshakeHash_eq_iff (hr : Run (create pattern role ids remote) h l) (hm : ∀ x, Met x h) :
    (l.session .a).handshakeHash = (l.session .b).handshakeHash ↔
      fnv1a ((ids .a).publicKey.toList ++ (ids .b).publicKey.toList) =
        fnv1a ((ids .b).publicKey.toList ++ (ids .a).publicKey.toList) := by
  have hhash (x : Side) : (l.session x).handshakeHash = Endian.ofUInt64
      (fnv1a ((ids x).publicKey.toList ++ (ids x.other).publicKey.toList)) := by
    rw [NoiseSession.handshakeHash, own_run hr x, remote_of_met hr (hm x)]
  rw [hhash, hhash]
  exact Endian.ofUInt64_injective.eq_iff

/-- Identities whose public keys are constant. -/
def constantKeys (k : Side → UInt8) (x : Side) : Identity :=
  { publicKey := Vector.replicate 32 (k x) }

/-- Sides with one public key bind to the same value. -/
theorem handshakeHash_eq (hr : Run (create pattern role ids remote) h l) (hm : ∀ x, Met x h)
    (hk : (ids .a).publicKey = (ids .b).publicKey) :
    (l.session .a).handshakeHash = (l.session .b).handshakeHash := by
  rw [handshakeHash_eq_iff hr hm, hk]

theorem handshakeHash_eq_same_key :
    ((final step (fresh (constantKeys fun _ => 1)) (steps fun _ => [])).session .a).handshakeHash =
      ((final step (fresh (constantKeys fun _ => 1)) (steps fun _ => [])).session
        .b).handshakeHash :=
  handshakeHash_eq (run_calls _ _) (met_steps _) rfl

/-- Keys that begin with zeros. -/
def paddedKey (tail : Vector UInt8 9) : Identity :=
  { publicKey := Vector.replicate 23 (0 : UInt8) ++ tail }

/-- Two keys that the hash does not tell apart in the two orders. -/
def collidingKeys : Side → Identity
  | .a => paddedKey #v[160, 146, 110, 119, 94, 215, 209, 33, 184]
  | .b => paddedKey #v[54, 248, 49, 3, 193, 134, 97, 53, 83]

/-- The keys need not be equal: these two collide. -/
theorem handshakeHash_eq_of_collision :
    (collidingKeys .a).publicKey ≠ (collidingKeys .b).publicKey ∧
      ((final step (fresh collidingKeys) (steps fun _ => [])).session .a).handshakeHash =
        ((final step (fresh collidingKeys) (steps fun _ => [])).session .b).handshakeHash :=
  ⟨by decide, (handshakeHash_eq_iff (run_calls _ _) (met_steps _)).mpr (by decide +kernel)⟩

/-- The hash puts the local key first, so with two keys the sides bind to different values. -/
theorem handshakeHash_ne : (∀ x, Met x (calls step
    (fresh (constantKeys fun | .a => 1 | .b => 2)) (steps fun _ => []))) ∧
    ((final step (fresh (constantKeys fun | .a => 1 | .b => 2))
        (steps fun _ => [])).session .a).handshakeHash ≠
      ((final step (fresh (constantKeys fun | .a => 1 | .b => 2))
        (steps fun _ => [])).session .b).handshakeHash :=
  ⟨met_steps _, by decide +kernel⟩

end Link

end Redesk
