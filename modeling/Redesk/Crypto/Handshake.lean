import Redesk.Crypto.Noise
import Redesk.Machine.Past

/-! What one call does to a Noise session, and from it the phases of a session over a run and what
a pinned remote key is worth. -/
namespace Redesk.NoiseSession
open Machine

abbrev Call := Machine.Call NoiseSession Op (Except Status Bytes)

abbrev Run : NoiseSession → List Call → NoiseSession → Prop := Machine.Run step

variable {s s₀ : NoiseSession} {h : List Call} {op : Op}

/-- The calls that a session goes along with. -/
def Accepts (s : NoiseSession) : Op → Prop
  | .writeMessage _ => s.handshakeDone = false
  | .readMessage message => s.handshakeDone = false ∧ 32 ≤ message.length
  | .encrypt plaintext _ => s.handshakeDone = true ∧ plaintext.length ≤ maxMessage
  | .decrypt ciphertext _ => s.handshakeDone = true ∧ 8 ≤ ciphertext.length ∧
      s.recvNonce ≤ Endian.toUInt64 ciphertext

/-- Every way a call can end: its guard, its reply and the state it leaves. -/
inductive Exit (s : NoiseSession) : Op → Except Status Bytes → NoiseSession → Prop where
  | failed (op : Op) (e : Status) (hf : ¬ s.Accepts op) : Exit s op (.error e) s
  | wrote (payload : Bytes) (hd : s.handshakeDone = false) :
    Exit s (.writeMessage payload) (.ok (s.localStatic.publicKey.toList ++ payload))
      (maybeComplete { s with messagesWritten := s.messagesWritten + 1 })
  | read (message : Bytes) (hd : s.handshakeDone = false) (hl : 32 ≤ message.length) :
    Exit s (.readMessage message) (.ok (message.drop 32))
      (maybeComplete { s with
        remoteStatic := senderKey message hl
        remoteKnown := true
        messagesRead := s.messagesRead + 1 })
  | encrypted (plaintext ad : Bytes) (hd : s.handshakeDone = true)
      (hl : plaintext.length ≤ maxMessage) :
    Exit s (.encrypt plaintext ad)
      (.ok (Endian.ofUInt64 s.sendNonce ++ s.xorStream plaintext s.sendNonce))
      { s with sendNonce := s.sendNonce + 1 }
  | decrypted (ciphertext ad : Bytes) (hd : s.handshakeDone = true) (hl : 8 ≤ ciphertext.length)
      (hn : s.recvNonce ≤ Endian.toUInt64 ciphertext) :
    Exit s (.decrypt ciphertext ad)
      (.ok (s.xorStream (ciphertext.drop 8) (Endian.toUInt64 ciphertext)))
      { s with recvNonce := Endian.toUInt64 ciphertext + 1 }

variable (s op) in
theorem step_exit : Exit s op (s.step op).1 (s.step op).2 := by
  cases op with
  | writeMessage payload =>
    cases hd : s.handshakeDone with
    | true => simpa [step, writeMessage, hd] using Exit.failed _ _ (by simp [Accepts, hd])
    | false => simpa [step, writeMessage, hd] using Exit.wrote payload hd
  | readMessage message =>
    cases hd : s.handshakeDone with
    | true => simpa [step, readMessage, hd] using Exit.failed _ _ (by simp [Accepts, hd])
    | false =>
      by_cases hl : message.length < 32
      · have hf : ¬ s.Accepts (.readMessage message) := by
          simp only [Accepts, not_and]
          omega
        simpa [step, readMessage, hd, hl] using Exit.failed _ _ hf
      · simpa [step, readMessage, hd, hl] using Exit.read message hd (Nat.le_of_not_lt hl)
  | encrypt plaintext ad =>
    cases hd : s.handshakeDone with
    | false => simpa [step, encrypt, hd] using Exit.failed _ _ (by simp [Accepts, hd])
    | true =>
      by_cases hl : maxMessage < plaintext.length
      · have hf : ¬ s.Accepts (.encrypt plaintext ad) := by
          simp only [Accepts, not_and]
          omega
        simpa [step, encrypt, hd, hl] using Exit.failed _ _ hf
      · simpa [step, encrypt, hd, hl] using Exit.encrypted plaintext ad hd (Nat.le_of_not_lt hl)
  | decrypt ciphertext ad =>
    cases hd : s.handshakeDone with
    | false => simpa [step, decrypt, hd] using Exit.failed _ _ (by simp [Accepts, hd])
    | true =>
      by_cases hl : ciphertext.length < 8
      · have hf : ¬ s.Accepts (.decrypt ciphertext ad) := by
          simp only [Accepts, not_and]
          omega
        simpa [step, decrypt, hd, hl] using Exit.failed _ _ hf
      · by_cases hn : Endian.toUInt64 ciphertext < s.recvNonce
        · have hf : ¬ s.Accepts (.decrypt ciphertext ad) := by
            simp only [Accepts, not_and, UInt64.not_le]
            exact fun _ _ => hn
          simpa [step, decrypt, hd, hl, hn] using Exit.failed _ _ hf
        · simpa [step, decrypt, hd, hl, hn] using
            Exit.decrypted ciphertext ad hd (Nat.le_of_not_lt hl) (UInt64.not_lt.mp hn)

variable (s op) in
theorem isOk_step : (s.step op).1.isOk = true ↔ s.Accepts op := by
  have he := step_exit s op
  generalize (s.step op).1 = r, (s.step op).2 = s' at he
  cases he with
  | failed op e hf => simpa [Except.isOk, Except.toBool] using hf
  | wrote payload hd => simpa [Except.isOk, Except.toBool, Accepts] using hd
  | read message hd hl => simp [Except.isOk, Except.toBool, Accepts, hd, hl]
  | encrypted plaintext ad hd hl => simp [Except.isOk, Except.toBool, Accepts, hd, hl]
  | decrypted ciphertext ad hd hl hn => simp [Except.isOk, Except.toBool, Accepts, hd, hl, hn]

/-- A call that fails leaves the session as it was. -/
theorem step_of_failed (hf : (s.step op).1.isOk = false) : (s.step op).2 = s := by
  have he := step_exit s op
  generalize (s.step op).1 = r, (s.step op).2 = s' at he hf
  cases he with
  | failed op e _ => rfl
  | _ => cases hf

section Fields
variable (s op)

@[simp] theorem maybeComplete_localStatic : s.maybeComplete.localStatic = s.localStatic := by
  unfold maybeComplete
  split <;> rfl

@[simp] theorem maybeComplete_remoteStatic : s.maybeComplete.remoteStatic = s.remoteStatic := by
  unfold maybeComplete
  split <;> rfl

@[simp] theorem maybeComplete_nonces :
    s.maybeComplete.sendNonce = s.sendNonce ∧ s.maybeComplete.recvNonce = s.recvNonce := by
  unfold maybeComplete
  split <;> exact ⟨rfl, rfl⟩

@[simp] theorem localStatic_step : (s.step op).2.localStatic = s.localStatic := by
  have he := step_exit s op
  generalize (s.step op).1 = r, (s.step op).2 = s' at he
  cases he <;> simp

end Fields

/-- Once the handshake is complete it stays so, and with the same remote key. -/
theorem step_of_done (hd : s.handshakeDone = true) :
    (s.step op).2.handshakeDone = true ∧ (s.step op).2.remoteStatic = s.remoteStatic := by
  have he := step_exit s op
  generalize (s.step op).1 = r, (s.step op).2 = s' at he
  cases he with
  | wrote payload hn => rw [hd] at hn; cases hn
  | read message hn hl => rw [hd] at hn; cases hn
  | failed | encrypted | decrypted => exact ⟨hd, rfl⟩

@[simp] theorem toList_senderKey (message : Bytes) (hl : 32 ≤ message.length) :
    (senderKey message hl).toList = message.take 32 := by
  apply List.ext_getElem
  · simp [hl]
  · intro i _ _
    simp [senderKey]

/-- A handshake message with another sender key than `k` is taken in. -/
def Substitutes (k : PublicKey) (s : NoiseSession) (op : Op) : Prop :=
  ∃ message, op = .readMessage message ∧ s.handshakeDone = false ∧ 32 ≤ message.length ∧
    message.take 32 ≠ k.toList

/-- The remote key is `k` all along, and a completed handshake has heard nobody else. -/
def Pinned (k : PublicKey) (h : List Call) (s : NoiseSession) : Prop :=
  (∀ c ∈ h, c.post.remoteStaticKey = k) ∧
    (s.isHandshakeComplete = true → ∀ c ∈ h, ∀ message, c.op = .readMessage message →
      c.res.isOk = true → message.take 32 = k.toList)

theorem remoteStatic_step {k : PublicKey} (hk : s.remoteStatic = k) :
    (s.step op).2.remoteStatic = k ↔ ¬ Substitutes k s op := by
  have he := step_exit s op
  generalize (s.step op).1 = r, (s.step op).2 = s' at he
  cases he with
  | failed op e hf =>
    refine iff_of_true hk ?_
    rintro ⟨message, rfl, hd, hl, -⟩
    exact hf ⟨hd, hl⟩
  | wrote payload hd =>
    refine iff_of_true (by simpa using hk) ?_
    rintro ⟨message, hop, -⟩
    cases hop
  | read message hd hl =>
    rw [maybeComplete_remoteStatic, ← Vector.toList_inj, toList_senderKey]
    constructor
    · rintro hkey ⟨message', hop, -, -, hne⟩
      obtain rfl := Op.readMessage.inj hop
      exact hne hkey
    · intro hn
      by_contra hne
      exact hn ⟨message, rfl, hd, hl, hne⟩
  | encrypted plaintext ad hd hl =>
    refine iff_of_true hk ?_
    rintro ⟨message, hop, -⟩
    cases hop
  | decrypted ciphertext ad hd hl hn =>
    refine iff_of_true hk ?_
    rintro ⟨message, hop, -⟩
    cases hop

/-- A session created for the key `k` keeps it, throughout a run, just when no message from another
key is taken in before the handshake is complete. -/
theorem pinned_iff {role : HandshakeRole} {loc : Identity} {k : PublicKey}
    (hr : Run (create .kk role loc k) h s) :
    Pinned k h s ↔ ∀ c ∈ h, ¬ Substitutes k c.pre c.op := by
  have hkeys : (∀ c ∈ h, c.post.remoteStaticKey = k) ↔ ∀ c ∈ h, ¬ Substitutes k c.pre c.op := by
    rw [← along_forall, ← along_forall]
    apply hr.along_iff (I := fun _ s => s.remoteStatic = k)
    · rfl
    · intro a s op _ hk hq
      exact (remoteStatic_step hk).mpr hq
    · intro a s op _ hk
      exact remoteStatic_step hk
  constructor
  · intro hp
    exact hkeys.mp hp.1
  · intro hq
    refine ⟨hkeys.mpr hq, ?_⟩
    intro _ c hc message hop hres
    have hcall := hr.call_of_mem hc
    rw [hcall, call_res, isOk_step, hop] at hres
    by_contra hne
    exact hq c hc ⟨message, hop, hres.1, hres.2, hne⟩

theorem pinned_own_key : Pinned (Vector.replicate 32 5)
    (calls step (create .kk .responder {} (Vector.replicate 32 5))
      [.readMessage (List.replicate 33 5), .writeMessage [1]])
    (final step (create .kk .responder {} (Vector.replicate 32 5))
      [.readMessage (List.replicate 33 5), .writeMessage [1]]) := by
  apply (pinned_iff (run_calls _ _)).mpr
  intro c hc
  rcases List.mem_pair.mp hc with rfl | rfl
  · rintro ⟨message, hop, -, -, hne⟩
    obtain rfl := Op.readMessage.inj hop
    exact hne (by decide)
  · rintro ⟨message, hop, -⟩
    cases hop

/-- A message from another key takes the pinned one's place, and the handshake completes. -/
theorem pinned_key_replaced : ¬ Pinned (Vector.replicate 32 5)
    (calls step (create .kk .responder {} (Vector.replicate 32 5))
      [.readMessage (List.replicate 32 6), .writeMessage []])
    (final step (create .kk .responder {} (Vector.replicate 32 5))
      [.readMessage (List.replicate 32 6), .writeMessage []]) := by
  intro hp
  exact absurd (hp.1 _ (List.mem_cons_self ..)) (by decide)

def wrote (c : Call) : Bool :=
  match c.op with
  | .writeMessage _ => c.res.isOk
  | _ => false

def heard (c : Call) : Bool :=
  match c.op with
  | .readMessage _ => c.res.isOk
  | _ => false

/-- A call of the handshake. -/
def exchanges (c : Call) : Bool :=
  match c.op with
  | .writeMessage _ | .readMessage _ => true
  | _ => false

/-- A session that has written `w` messages and read `n`. -/
structure Phase (w n : ℕ) (s : NoiseSession) : Prop where
  written : s.messagesWritten = Int32.ofNat w
  read : s.messagesRead = Int32.ofNat n
  known : 1 ≤ n → s.remoteKnown = true
  done : s.handshakeDone = true ↔ 1 ≤ w ∧ 1 ≤ n

theorem one_le_ofNat {n : ℕ} (hn : n < 2 ^ 31) : (1 : Int32) ≤ Int32.ofNat n ↔ 1 ≤ n := by
  rw [Int32.le_iff_toInt_le, Int32.toInt_ofNat_of_lt hn]
  show (1 : ℤ) ≤ n ↔ _
  omega

theorem countP_wrote_le (h : List Call) : h.countP wrote ≤ h.countP exchanges := by
  apply List.countP_mono_left
  rintro ⟨pre, op, r, post⟩ _ hw
  cases op <;> first | rfl | cases hw

theorem countP_heard_le (h : List Call) : h.countP heard ≤ h.countP exchanges := by
  apply List.countP_mono_left
  rintro ⟨pre, op, r, post⟩ _ hw
  cases op <;> first | rfl | cases hw

theorem phase_create (pattern : NoisePattern) (role : HandshakeRole) (loc : Identity)
    (remote : PublicKey) : Phase 0 0 (create pattern role loc remote) where
  written := rfl
  read := rfl
  known := by omega
  done := by simp [create]

/-- A session whose counters were just written completes when both are up. -/
theorem phase_maybeComplete {w n : ℕ} (hw : w < 2 ^ 31) (hn : n < 2 ^ 31)
    (hwritten : s.messagesWritten = Int32.ofNat w) (hread : s.messagesRead = Int32.ofNat n)
    (hknown : 1 ≤ n → s.remoteKnown = true) (hd : s.handshakeDone = false) :
    Phase w n s.maybeComplete := by
  have hc : (s.remoteKnown = true ∧ 1 ≤ s.messagesWritten ∧ 1 ≤ s.messagesRead) ↔
      1 ≤ w ∧ 1 ≤ n := by
    rw [hwritten, hread, one_le_ofNat hw, one_le_ofNat hn]
    constructor
    · exact fun hc => hc.2
    · exact fun hc => ⟨hknown hc.2, hc⟩
  unfold maybeComplete
  split
  · exact ⟨hwritten, hread, hknown, iff_of_true rfl (hc.mp ‹_›)⟩
  · have hnot : ¬ (1 ≤ w ∧ 1 ≤ n) := mt hc.mpr ‹_›
    exact ⟨hwritten, hread, hknown, iff_of_false (by rw [hd]; exact Bool.false_ne_true) hnot⟩

/-- One step for the phase; the counters must not wrap. -/
theorem Phase.step {w n : ℕ} {r : Except Status Bytes} {s' : NoiseSession} (hi : Phase w n s)
    (he : Exit s op r s') (hw : (w + if wrote ⟨s, op, r, s'⟩ then 1 else 0) < 2 ^ 31)
    (hn : (n + if heard ⟨s, op, r, s'⟩ then 1 else 0) < 2 ^ 31) :
    Phase (w + if wrote ⟨s, op, r, s'⟩ then 1 else 0) (n + if heard ⟨s, op, r, s'⟩ then 1 else 0)
      s' := by
  obtain ⟨hwritten, hread, hknown, hdone⟩ := hi
  cases he with
  | failed op e hf => cases op <;> exact ⟨hwritten, hread, hknown, hdone⟩
  | wrote payload hd =>
    have hone : s.messagesWritten + 1 = Int32.ofNat (w + 1) := by
      rw [hwritten, Int32.ofNat_add]
      rfl
    exact phase_maybeComplete hw hn hone hread hknown hd
  | read message hd hl =>
    have hone : s.messagesRead + 1 = Int32.ofNat (n + 1) := by
      rw [hread, Int32.ofNat_add]
      rfl
    exact phase_maybeComplete hw hn hwritten hone (fun _ => rfl) hd
  | encrypted plaintext ad hd hl => exact ⟨hwritten, hread, hknown, hdone⟩
  | decrypted ciphertext ad hd hl hn => exact ⟨hwritten, hread, hknown, hdone⟩

/-- At some point of the calls `h` both counters of a session were up, each counting the successful
calls of its kind in 32 bits. -/
def Opened (h : List Call) : Prop :=
  ∃ a, a <+: h ∧ 1 ≤ Int32.ofNat (a.countP wrote) ∧ 1 ≤ Int32.ofNat (a.countP heard)

theorem opened_snoc {c : Call} : Opened (h ++ [c]) ↔ Opened h ∨
    1 ≤ Int32.ofNat ((h ++ [c]).countP wrote) ∧ 1 ≤ Int32.ofNat ((h ++ [c]).countP heard) := by
  constructor
  · rintro ⟨a, ha, hup⟩
    rcases List.prefix_concat_iff.mp ha with rfl | ha
    · exact .inr hup
    · exact .inl ⟨a, ha, hup⟩
  · rintro (⟨a, ha, hup⟩ | hup)
    · exact ⟨a, ha.trans (List.prefix_append ..), hup⟩
    · exact ⟨_, List.prefix_rfl, hup⟩

/-- A session that wrote and read, and made too few calls to wrap a counter, has been opened. -/
theorem opened_of_lt (hb : h.countP exchanges < 2 ^ 31) (hw : ∃ c ∈ h, wrote c = true)
    (hn : ∃ c ∈ h, heard c = true) : Opened h := by
  refine ⟨h, List.prefix_rfl, ?_, ?_⟩
  · exact (one_le_ofNat ((countP_wrote_le h).trans_lt hb)).mpr (List.countP_pos_iff.mpr hw)
  · exact (one_le_ofNat ((countP_heard_le h).trans_lt hb)).mpr (List.countP_pos_iff.mpr hn)

/-- What the counters of a session that made the calls `h` have come to. -/
structure Counted (h : List Call) (s : NoiseSession) : Prop where
  done : s.handshakeDone = true ↔ Opened h
  written : s.messagesWritten = Int32.ofNat (h.countP wrote)
  read : s.messagesRead = Int32.ofNat (h.countP heard)
  known : 1 ≤ h.countP heard → s.remoteKnown = true

theorem counted_create {pattern : NoisePattern} {role : HandshakeRole} {loc : Identity}
    {remote : PublicKey} : Counted [] (create pattern role loc remote) where
  done := by
    refine iff_of_false Bool.false_ne_true ?_
    rintro ⟨a, ha, hw, -⟩
    rw [List.prefix_nil.mp ha] at hw
    exact absurd hw (by decide)
  written := rfl
  read := rfl
  known hn := by simp at hn

/-- A call that is no successful call of the handshake leaves the counters alone. -/
theorem Counted.frame {c : Call} {s' : NoiseSession} (hi : Counted h s) (hw : wrote c = false)
    (hn : heard c = false) (hd : s'.handshakeDone = s.handshakeDone)
    (hs : s'.messagesWritten = s.messagesWritten ∧ s'.messagesRead = s.messagesRead ∧
      s'.remoteKnown = s.remoteKnown) : Counted (h ++ [c]) s' := by
  have hcount : (h ++ [c]).countP wrote = h.countP wrote ∧
      (h ++ [c]).countP heard = h.countP heard := by
    simp [List.countP_append, hw, hn]
  obtain ⟨hwritten, hread, hknown⟩ := hs
  constructor
  · rw [hd, hi.done, opened_snoc, hcount.1, hcount.2]
    exact ⟨.inl, fun ho => ho.elim id fun hup => ⟨h, List.prefix_rfl, hup⟩⟩
  · rw [hwritten, hi.written, hcount.1]
  · rw [hread, hi.read, hcount.2]
  · rw [hknown, hcount.2]
    exact hi.known

/-- A session whose counters were just written opens when both are up. -/
theorem counted_maybeComplete {c : Call} (ho : ¬ Opened h) (hd : s.handshakeDone = false)
    (hwritten : s.messagesWritten = Int32.ofNat ((h ++ [c]).countP wrote))
    (hread : s.messagesRead = Int32.ofNat ((h ++ [c]).countP heard))
    (hknown : 1 ≤ (h ++ [c]).countP heard → s.remoteKnown = true) :
    Counted (h ++ [c]) s.maybeComplete := by
  have hup : (s.remoteKnown = true ∧ 1 ≤ s.messagesWritten ∧ 1 ≤ s.messagesRead) ↔
      Opened (h ++ [c]) := by
    rw [opened_snoc, or_iff_right ho, ← hwritten, ← hread]
    refine and_iff_right_of_imp fun hup => hknown (Nat.one_le_iff_ne_zero.mpr fun hzero => ?_)
    rw [hread, hzero] at hup
    exact absurd hup.2 (by decide)
  unfold maybeComplete
  split
  · exact ⟨iff_of_true rfl (hup.mp ‹_›), hwritten, hread, hknown⟩
  · refine ⟨?_, hwritten, hread, hknown⟩
    rw [hd, ← hup]
    exact iff_of_false Bool.false_ne_true ‹_›

theorem Counted.step {r : Except Status Bytes} {s' : NoiseSession} (hi : Counted h s)
    (he : Exit s op r s') : Counted (h ++ [⟨s, op, r, s'⟩]) s' := by
  have hopen (hd : s.handshakeDone = false) : ¬ Opened h := by
    rw [← hi.done, hd]
    exact Bool.false_ne_true
  cases he with
  | failed op e hf => cases op <;> exact hi.frame rfl rfl rfl ⟨rfl, rfl, rfl⟩
  | wrote payload hd =>
    refine counted_maybeComplete (hopen hd) hd ?_ ?_ ?_
    · simp [hi.written, List.countP_append, List.countP_singleton, wrote, Except.isOk,
        Except.toBool, Int32.ofNat_add]
    · simpa [List.countP_append, List.countP_singleton, heard] using hi.read
    · simpa [List.countP_append, List.countP_singleton, heard] using hi.known
  | read message hd hl =>
    refine counted_maybeComplete (hopen hd) hd ?_ ?_ fun _ => rfl
    · simpa [List.countP_append, List.countP_singleton, wrote] using hi.written
    · simp [hi.read, List.countP_append, List.countP_singleton, heard, Except.isOk,
        Except.toBool, Int32.ofNat_add]
  | encrypted plaintext ad hd hl => exact hi.frame rfl rfl rfl ⟨rfl, rfl, rfl⟩
  | decrypted ciphertext ad hd hl hn => exact hi.frame rfl rfl rfl ⟨rfl, rfl, rfl⟩

/-- In every run a session is complete just when it has been opened. -/
theorem counted_run {pattern : NoisePattern} {role : HandshakeRole} {loc : Identity}
    {remote : PublicKey} (hr : Run (create pattern role loc remote) h s) : Counted h s := by
  induction hr with
  | nil => exact counted_create
  | snoc hr op ih => exact ih.step (step_exit _ op)

/-- The counters of a session count its successful calls, as long as they do not wrap. -/
theorem phase_run {pattern : NoisePattern} {role : HandshakeRole} {loc : Identity}
    {remote : PublicKey} (hr : Run (create pattern role loc remote) h s)
    (hb : h.countP exchanges < 2 ^ 31) : Phase (h.countP wrote) (h.countP heard) s := by
  obtain ⟨hdone, hwritten, hread, hknown⟩ := counted_run hr
  refine ⟨hwritten, hread, hknown, hdone.trans ⟨?_, ?_⟩⟩
  · rintro ⟨a, ha, hw, hn⟩
    have hshort := (ha.sublist.countP_le (p := exchanges)).trans_lt hb
    rw [one_le_ofNat ((countP_wrote_le a).trans_lt hshort)] at hw
    rw [one_le_ofNat ((countP_heard_le a).trans_lt hshort)] at hn
    exact ⟨hw.trans ha.sublist.countP_le, hn.trans ha.sublist.countP_le⟩
  · rintro ⟨hw, hn⟩
    exact opened_of_lt hb (List.countP_pos_iff.mp hw) (List.countP_pos_iff.mp hn)

end Redesk.NoiseSession
