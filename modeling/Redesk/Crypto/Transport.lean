import Redesk.Crypto.Agreement

/-! The transport phase of a link: the nonces of the two sides stay in step, so that a text is
recovered just where the two key streams agree. A text is masked with a pad, the bytes of a stream
cipher whose key stream is given as a function of the position. -/
namespace Pad

variable {pad pad' : ℕ → UInt8} {text : List UInt8}

def mask (pad : ℕ → UInt8) (text : List UInt8) : List UInt8 := text.mapIdx fun i b => b ^^^ pad i

/-- What one pad hides, another one shows just when the two agree over the length of the text. -/
theorem mask_mask_eq_iff :
    mask pad' (mask pad text) = text ↔ ∀ i < text.length, pad i = pad' i := by
  have hbyte (b p q : UInt8) : b ^^^ p ^^^ q = b ↔ p = q := by
    rw [UInt8.xor_assoc]
    constructor
    · intro h
      have hcancel := congrArg (b ^^^ ·) h
      simp only [← UInt8.xor_assoc, UInt8.xor_self, UInt8.zero_xor] at hcancel
      exact UInt8.xor_eq_zero_iff.mp hcancel
    · rintro rfl
      simp
  rw [mask, mask, List.mapIdx_mapIdx]
  constructor
  · intro h i hi
    have hget := congrArg (·[i]?) h
    simp only [List.getElem?_mapIdx, List.getElem?_eq_getElem hi, Option.map_some,
      Option.some_inj] at hget
    exact (hbyte _ _ _).mp hget
  · intro h
    apply List.ext_getElem
    · simp
    · intro i _ hi
      rw [List.getElem_mapIdx]
      exact (hbyte _ _ _).mpr (h i hi)

end Pad

namespace Redesk.Link
open Machine

variable {pattern : Side → NoisePattern} {role : Side → HandshakeRole} {ids : Side → Identity}
  {remote : Side → PublicKey} {l : Link} {h : List Call} {x : Side} {e : Event}

/-- Once both sides have read a handshake message of the other, every text that is not too long is
encrypted, and every one is decrypted to the plaintext that it was made from. -/
def RoundTrip (h : List Call) : Prop :=
  Along (fun a c => (∀ x, Met x a) →
    (∀ x plaintext ad, c.op = .encrypt x plaintext ad →
      plaintext.length ≤ NoiseSession.maxMessage → ∃ ciphertext, c.res = some (.ok ciphertext)) ∧
    ∀ x ad plaintext ciphertext ts, c.op = .decrypt x ad →
      c.pre.texts x.other = (plaintext, ciphertext) :: ts → c.res = some (.ok plaintext)) h

/-- Side `x` is given a text to encrypt that is not too long, or one to decrypt. -/
def Asked (x : Side) (c : Call) : Prop :=
  (∃ plaintext ad, c.op = .encrypt x plaintext ad ∧ plaintext.length ≤ NoiseSession.maxMessage) ∨
    ∃ ad, c.op = .decrypt x ad ∧ c.pre.texts x.other ≠ []

/-- A side that is given a text has had both counters of its handshake up by then. -/
def Completes (h : List Call) : Prop :=
  Along (fun a c => (∀ x, Met x a) → ∀ x, Asked x c → NoiseSession.Opened (a.filterMap (view x))) h

/-- No text is decrypted that is longer than what the two public keys have in common. -/
def KeysAgree (ids : Side → Identity) (h : List Call) : Prop :=
  Along (fun a c => (∀ x, Met x a) → ∀ x ad plaintext ciphertext ts, c.op = .decrypt x ad →
    c.pre.texts x.other = (plaintext, ciphertext) :: ts →
      (ids x).publicKey.toList.take plaintext.length =
        (ids x.other).publicKey.toList.take plaintext.length) h

/-- The pad of a session with these two keys. -/
def pad (mine theirs : PublicKey) (nonce : UInt64) (i : ℕ) : UInt8 :=
  (mine ++ theirs)[i % 64] ^^^ ((nonce + UInt64.ofNat i) &&& 0xFF).toUInt8

theorem xorStream_eq_mask (s : NoiseSession) (input : Bytes) (nonce : UInt64) :
    s.xorStream input nonce =
      Pad.mask (pad s.localStatic.publicKey s.remoteStatic nonce) input := rfl

/-- Two sides use the same pad over the first `k` bytes just when their keys start alike. -/
theorem pad_eq_iff {k₁ k₂ : PublicKey} {nonce : UInt64} {k : ℕ} :
    (∀ i < k, pad k₁ k₂ nonce i = pad k₂ k₁ nonce i) ↔ k₁.toList.take k = k₂.toList.take k := by
  simp only [pad, UInt8.xor_left_inj, Vector.getElem_append]
  constructor
  · intro h
    apply List.ext_getElem
    · simp
    · intro i hi _
      have hi : i < k ∧ i < 32 := by simpa using hi
      simpa [Nat.mod_eq_of_lt (show i < 64 by omega), hi.2] using h i hi.1
  · intro h i hi
    have hkey (j : ℕ) (hj : j < 32) (hjk : j < k) : k₁[j] = k₂[j] := by
      have hget := congrArg (·[j]?) h
      simpa [List.getElem?_take, hjk, hj] using hget
    have hmod : i % 64 ≤ i := Nat.mod_le i 64
    split
    · exact hkey _ _ (by omega)
    · exact (hkey _ (by omega) (by omega)).symm

/-- The texts carry the nonces from `n` up to `m`. -/
def Numbered (mine theirs : PublicKey) : UInt64 → List (Bytes × Bytes) → UInt64 → Prop
  | n, [], m => n = m
  | n, text :: ts, m =>
    text.2 = Endian.ofUInt64 n ++ Pad.mask (pad mine theirs n) text.1 ∧
      Numbered mine theirs (n + 1) ts m

theorem Numbered.snoc {k₁ k₂ : PublicKey} {n m : UInt64} {ts : List (Bytes × Bytes)}
    (hn : Numbered k₁ k₂ n ts m) (text : Bytes) :
    Numbered k₁ k₂ n (ts ++ [(text, Endian.ofUInt64 m ++ Pad.mask (pad k₁ k₂ m) text)])
      (m + 1) := by
  induction ts generalizing n with
  | nil =>
    obtain rfl : n = m := hn
    exact ⟨rfl, rfl⟩
  | cons t ts ih => exact ⟨hn.1, ih hn.2⟩

/-- What is in transit from each side lies between the two nonce counters. -/
def InStep (ids : Side → Identity) (l : Link) : Prop :=
  ∀ x, Numbered (ids x).publicKey (ids x.other).publicKey (l.session x.other).recvNonce (l.texts x)
    (l.session x).sendNonce

theorem inStep_create : InStep ids (create pattern role ids remote) := fun _ => rfl

/-- Calls that move neither a text nor a nonce. -/
theorem InStep.frame {s : NoiseSession} {l' : Link} (hi : InStep ids l) (ht : l'.texts = l.texts)
    (hs : s.sendNonce = (l.session x).sendNonce ∧ s.recvNonce = (l.session x).recvNonce) :
    InStep ids { l' with session := Function.update l.session x s } := by
  have hnonces (y : Side) : (Function.update l.session x s y).sendNonce = (l.session y).sendNonce ∧
      (Function.update l.session x s y).recvNonce = (l.session y).recvNonce := by
    rcases eq_or_ne y x with rfl | hne
    · simpa using hs
    · simp [Function.update_of_ne hne]
  intro y
  show Numbered _ _ (Function.update l.session x s y.other).recvNonce (l'.texts y)
    (Function.update l.session x s y).sendNonce
  rw [ht, (hnonces y).1, (hnonces y.other).2]
  exact hi y

theorem inStep_step (hown : ∀ x, (l.session x).localStatic = ids x)
    (hdone : ∀ x, (l.session x).handshakeDone = true →
      (l.session x).remoteStatic = (ids x.other).publicKey)
    (hi : InStep ids l) : InStep ids (l.step e).2 := by
  cases hq : l.request e with
  | none => simpa [step_of_request_none hq] using hi
  | some q =>
    obtain ⟨x, op⟩ := q
    rw [step_of_request hq]
    have he := NoiseSession.step_exit (l.session x) op
    generalize ((l.session x).step op).1 = r, ((l.session x).step op).2 = s' at he
    cases he with
    | failed op e hf => cases op <;> exact hi.frame rfl ⟨rfl, rfl⟩
    | wrote payload hd => exact hi.frame rfl (NoiseSession.maybeComplete_nonces _)
    | read message hd hl => exact hi.frame rfl (NoiseSession.maybeComplete_nonces _)
    | encrypted plaintext ad hd hl =>
      intro y
      rcases Side.eq_or_eq_other x y with rfl | rfl
      · have hnew := (hi y).snoc plaintext
        rw [← hown y, ← hdone y hd, ← xorStream_eq_mask] at hnew
        rw [← hown y, ← hdone y hd]
        simpa [carry, Function.update_of_ne y.other_ne] using hnew
      · simpa [carry, Function.update_of_ne x.other_ne] using hi x.other
    | decrypted ciphertext ad hd hl hn =>
      obtain ⟨text, ts, -, htexts, rfl⟩ := request_decrypt hq
      intro y
      rcases Side.eq_or_eq_other x y with rfl | rfl
      · simpa [carry, Function.update_of_ne y.other_ne, Function.update_of_ne y.other_ne.symm] using
          hi y
      · have hold := hi x.other
        rw [htexts, Side.other_other] at hold
        obtain ⟨htext, hrest⟩ := hold
        have hnonce : Endian.toUInt64 text.2 = (l.session x).recvNonce := by
          rw [htext, Endian.toUInt64_ofUInt64_append]
        rw [← hnonce] at hrest
        simpa [carry, htexts, Function.update_of_ne x.other_ne] using hrest

theorem inStep_run (hr : Run (create pattern role ids remote) h l) : InStep ids l := by
  induction hr with
  | nil => exact inStep_create
  | snoc hr e ih => exact inStep_step (own_run hr) (fun x => remote_of_done hr) ih

/-- One decryption: it gives the plaintext back just when the session is complete and the two keys
agree over the length of the plaintext. -/
theorem decrypt_eq_ok_iff (hr : Run (create pattern role ids remote) h l) {plaintext ad : Bytes}
    {ciphertext : Bytes} {ts : List (Bytes × Bytes)}
    (ht : l.texts x.other = (plaintext, ciphertext) :: ts) :
    (l.step (.decrypt x ad)).1 = some (.ok plaintext) ↔
      (l.session x).isHandshakeComplete = true ∧
        (ids x).publicKey.toList.take plaintext.length =
          (ids x.other).publicKey.toList.take plaintext.length := by
  have hq : l.request (.decrypt x ad) = some (x, .decrypt ciphertext ad) := by simp [request, ht]
  have hstep := inStep_run hr x.other
  rw [ht, Side.other_other] at hstep
  obtain ⟨htext, -⟩ := hstep
  have hnonce : Endian.toUInt64 ciphertext = (l.session x).recvNonce := by
    rw [show ciphertext = _ from htext, Endian.toUInt64_ofUInt64_append]
  have hlen : 8 ≤ ciphertext.length := by
    rw [show ciphertext = _ from htext]
    simp
  have hdrop : ciphertext.drop 8 = Pad.mask
      (pad (ids x.other).publicKey (ids x).publicKey (l.session x).recvNonce) plaintext := by
    rw [show ciphertext = _ from htext]
    simp
  rw [step_of_request hq, Option.some_inj]
  have he := NoiseSession.step_exit (l.session x) (.decrypt ciphertext ad)
  generalize ((l.session x).step (.decrypt ciphertext ad)).1 = r,
    ((l.session x).step (.decrypt ciphertext ad)).2 = s' at he
  cases he with
  | failed op e hf =>
    refine iff_of_false (fun h => by cases h) ?_
    rintro ⟨hd, -⟩
    exact hf ⟨hd, hlen, by rw [hnonce]; exact UInt64.le_refl _⟩
  | decrypted ciphertext ad hd hl hn =>
    rw [Except.ok.injEq, hdrop, hnonce, xorStream_eq_mask, own_run hr, remote_of_done hr hd,
      Pad.mask_mask_eq_iff, pad_eq_iff, eq_comm]
    exact (and_iff_right hd).symm

/-- One encryption: it goes through just when the session is complete and the text is not too
long. -/
theorem encrypt_ok_iff {plaintext ad : Bytes} :
    (∃ ciphertext, (l.step (.encrypt x plaintext ad)).1 = some (.ok ciphertext)) ↔
      (l.session x).handshakeDone = true ∧ plaintext.length ≤ NoiseSession.maxMessage := by
  have hq : l.request (.encrypt x plaintext ad) = some (x, .encrypt plaintext ad) := rfl
  have hok := NoiseSession.isOk_step (l.session x) (.encrypt plaintext ad)
  rw [NoiseSession.Accepts] at hok
  rw [step_of_request hq, ← hok]
  cases ((l.session x).step (.encrypt plaintext ad)).1 <;> simp [Except.isOk, Except.toBool]

/-- One call makes the round trip just when the side that it asks is complete and, if it decrypts,
the text is no longer than what the keys have in common. -/
theorem roundTrip_call (hr : Run (create pattern role ids remote) h l) (e : Event) :
    ((∀ x plaintext ad, e = .encrypt x plaintext ad →
        plaintext.length ≤ NoiseSession.maxMessage →
          ∃ ciphertext, (l.step e).1 = some (.ok ciphertext)) ∧
      ∀ x ad plaintext ciphertext ts, e = .decrypt x ad →
        l.texts x.other = (plaintext, ciphertext) :: ts → (l.step e).1 = some (.ok plaintext)) ↔
    (∀ x, Asked x (call step l e) → (l.session x).handshakeDone = true) ∧
      ∀ x ad plaintext ciphertext ts, e = .decrypt x ad →
        l.texts x.other = (plaintext, ciphertext) :: ts →
          (ids x).publicKey.toList.take plaintext.length =
            (ids x.other).publicKey.toList.take plaintext.length := by
  constructor
  · rintro ⟨henc, hdec⟩
    refine ⟨?_, fun x ad plaintext ciphertext ts he ht => ?_⟩
    · rintro x (⟨plaintext, ad, he, hl⟩ | ⟨ad, he, ht⟩)
      · obtain rfl : e = .encrypt x plaintext ad := he
        exact (encrypt_ok_iff.mp (henc x plaintext ad rfl hl)).1
      · obtain rfl : e = .decrypt x ad := he
        obtain ⟨text, ts, ht⟩ := List.exists_cons_of_ne_nil ht
        exact ((decrypt_eq_ok_iff hr ht).mp (hdec x ad text.1 text.2 ts rfl ht)).1
    · subst he
      exact ((decrypt_eq_ok_iff hr ht).mp (hdec x ad plaintext ciphertext ts rfl ht)).2
  · rintro ⟨hdone, hkeys⟩
    refine ⟨fun x plaintext ad he hl => ?_, fun x ad plaintext ciphertext ts he ht => ?_⟩
    · subst he
      exact encrypt_ok_iff.mpr ⟨hdone x (.inl ⟨plaintext, ad, rfl, hl⟩), hl⟩
    · subst he
      have hne : l.texts x.other ≠ [] := by simp [ht]
      exact (decrypt_eq_ok_iff hr ht).mpr ⟨hdone x (.inr ⟨ad, rfl, hne⟩),
        hkeys x ad plaintext ciphertext ts rfl ht⟩

/-- Sides that have read each other's messages have written them, so both are complete unless one of
them wrapped a counter before. -/
theorem completes_of_lt (hr : Run (create pattern role ids remote) h l)
    (hb : ∀ x, (h.filterMap (view x)).countP NoiseSession.exchanges < 2 ^ 31) : Completes h := by
  rintro a c b rfl hmet x -
  have hbefore : (a.filterMap (view x)).countP NoiseSession.exchanges < 2 ^ 31 := by
    refine lt_of_le_of_lt ?_ (hb x)
    rw [List.filterMap_append, List.countP_append]
    exact Nat.le_add_right ..
  obtain ⟨hheard, -⟩ := heard_of_met hr.split.1 (hmet x)
  obtain ⟨-, hwrote⟩ := heard_of_met hr.split.1 (hmet x.other)
  rw [Side.other_other] at hwrote
  exact NoiseSession.opened_of_lt hbefore hwrote hheard

/-- Texts make the round trip throughout a run just when every side that is asked has completed and
each text is no longer than what the two public keys have in common; and every side has, unless it
made so many calls of the handshake that a counter could wrap. -/
theorem roundTrip_iff (hr : Run (create pattern role ids remote) h l) :
    (RoundTrip h ↔ Completes h ∧ KeysAgree ids h) ∧
      ((∀ x, (h.filterMap (view x)).countP NoiseSession.exchanges < 2 ^ 31) → Completes h) := by
  refine ⟨?_, completes_of_lt hr⟩
  rw [RoundTrip, Completes, KeysAgree, ← along_and]
  apply hr.along_iff (I := fun _ _ => True)
  · trivial
  · exact fun _ _ _ _ _ _ => trivial
  · intro a l e hr _
    have hcall := roundTrip_call hr e
    simp only [(NoiseSession.counted_run (view_run hr _)).done] at hcall
    rw [← imp_and]
    exact forall_congr' fun _ => hcall

/-- Both sides after the handshake. -/
def linked (ids : Side → Identity) : Link := final step (fresh ids) (steps fun _ => [])

/-- The calls of a handshake, of a text of side `a` and of its decryption. -/
def oneText (ids : Side → Identity) (plaintext : Bytes) : List Call :=
  calls step (fresh ids) (steps fun _ => []) ++
    calls step (linked ids) [.encrypt .a plaintext [], .decrypt .b []]

theorem roundTrip_same_key : RoundTrip (oneText (constantKeys fun _ => 1) [3, 4]) := by
  obtain ⟨hiff, hcompletes⟩ :=
    roundTrip_iff (h := oneText (constantKeys fun _ => 1) [3, 4]) ((run_calls _ _).calls_from _)
  refine hiff.mpr ⟨hcompletes fun x => ?_, fun a c b _ _ x ad plaintext ciphertext ts _ _ => rfl⟩
  cases x <;> decide

/-- With two keys, the first text comes out wrong. -/
theorem roundTrip_fails : ¬ RoundTrip (oneText (constantKeys fun | .a => 1 | .b => 2) [3, 4]) := by
  intro hp
  let l := linked (constantKeys fun | .a => 1 | .b => 2)
  have hmet (x : Side) : Met x (calls step (fresh (constantKeys fun | .a => 1 | .b => 2))
      (steps fun _ => []) ++ [call step l (.encrypt .a [3, 4] [])]) := by
    obtain ⟨c, hc, hread⟩ := met_steps (constantKeys fun | .a => 1 | .b => 2) x
    exact ⟨c, List.mem_append_left _ hc, hread⟩
  have hres := (hp _ (call step (l.step (.encrypt .a [3, 4] [])).2 (.decrypt .b [])) [] rfl hmet).2
    .b [] [3, 4] _ [] rfl rfl
  exact absurd hres (by decide +kernel)

end Redesk.Link
