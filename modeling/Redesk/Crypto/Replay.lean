import Redesk.Crypto.Handshake

/-! The receive window: what an increasing nonce counter rejects, and where it wraps. -/
namespace Redesk.NoiseSession
open Machine

variable {s s₀ : NoiseSession} {h : List Call} {op : Op}

/-- The ciphertext that a call decrypts. -/
def acceptedText (c : Call) : Option Bytes :=
  match c.op with
  | .decrypt ciphertext _ => if c.res.isOk then some ciphertext else none
  | _ => none

/-- The nonce of a ciphertext that is long enough to carry one. -/
def carried (c : Call) : Option UInt64 :=
  match c.op with
  | .decrypt ciphertext _ =>
    if 8 ≤ ciphertext.length then some (Endian.toUInt64 ciphertext) else none
  | _ => none

/-- The nonces of the accepted ciphertexts increase, so none is accepted twice, and a ciphertext
that is refused leaves the session as it was. -/
def ReplayRejected (h : List Call) : Prop :=
  (h.filterMap acceptedText).Pairwise (fun x y => Endian.toUInt64 x < Endian.toUInt64 y) ∧
    (h.filterMap acceptedText).Nodup ∧
    ∀ c ∈ h, ∀ ciphertext ad, c.op = .decrypt ciphertext ad → c.res.isOk = false →
      c.post = c.pre

def lastNonce : UInt64 := 0xFFFFFFFFFFFFFFFF

theorem le_lastNonce (n : UInt64) : n ≤ lastNonce := by
  rw [UInt64.le_iff_toNat_le]
  have hn := n.toNat_lt
  show n.toNat ≤ 18446744073709551615
  omega

theorem lt_succ_of_ne_last {n : UInt64} (hn : n ≠ lastNonce) : n < n + 1 := by
  have hne : n.toNat ≠ 18446744073709551615 := fun he => hn (UInt64.toNat_inj.mp he)
  have hlt := n.toNat_lt
  rw [UInt64.lt_iff_toNat_lt, UInt64.toNat_add]
  show n.toNat < (n.toNat + 1) % 2 ^ 64
  omega

/-- The window has wrapped: a ciphertext carried the last nonce there is. -/
def Wrapped (a : List Call) : Prop := ∃ d ∈ a, carried d = some lastNonce

/-- Where the receive counter stands against what was accepted. -/
structure Window (a : List Call) (s : NoiseSession) : Prop where
  done : s.handshakeDone = true
  wrapped : Wrapped a → s.recvNonce = 0 ∧
    ∃ x ∈ a.filterMap acceptedText, Endian.toUInt64 x = lastNonce
  rising : ¬ Wrapped a → ∀ x ∈ a.filterMap acceptedText, Endian.toUInt64 x < s.recvNonce

theorem acceptedText_eq {x : Bytes} : acceptedText (call step s op) = some x ↔
    ∃ ad, op = .decrypt x ad ∧ s.Accepts op := by
  cases op with
  | decrypt ciphertext ad =>
    have hok := isOk_step s (.decrypt ciphertext ad)
    simp only [acceptedText, call_op, call_res]
    constructor
    · intro hx
      obtain ⟨hres, hx⟩ := Option.ite_none_right_eq_some.mp hx
      obtain rfl := Option.some.inj hx
      exact ⟨ad, rfl, hok.mp hres⟩
    · rintro ⟨ad', hop, ha⟩
      obtain ⟨rfl, rfl⟩ := Op.decrypt.inj hop
      exact if_pos (hok.mpr ha)
  | _ => simp [acceptedText]

theorem carried_eq {n : UInt64} : carried (call step s op) = some n ↔
    ∃ ciphertext ad, op = .decrypt ciphertext ad ∧ 8 ≤ ciphertext.length ∧
      Endian.toUInt64 ciphertext = n := by
  cases op with
  | decrypt ciphertext ad =>
    simp only [carried, call_op]
    constructor
    · intro hn
      obtain ⟨hl, hn⟩ := Option.ite_none_right_eq_some.mp hn
      exact ⟨ciphertext, ad, rfl, hl, Option.some.inj hn⟩
    · rintro ⟨ciphertext', ad', hop, hl, rfl⟩
      obtain ⟨rfl, rfl⟩ := Op.decrypt.inj hop
      exact if_pos hl
  | _ => simp [carried]

/-- An accepted ciphertext carries its nonce, and the window moves past it. -/
theorem step_of_accepted {x : Bytes} (hx : acceptedText (call step s op) = some x) :
    carried (call step s op) = some (Endian.toUInt64 x) ∧ s.recvNonce ≤ Endian.toUInt64 x ∧
      (s.step op).2.recvNonce = Endian.toUInt64 x + 1 := by
  obtain ⟨ad, rfl, ha⟩ := acceptedText_eq.mp hx
  have he := step_exit s (.decrypt x ad)
  generalize (s.step (.decrypt x ad)).1 = r, (s.step (.decrypt x ad)).2 = s' at he
  cases he with
  | failed op e hf => exact (hf ha).elim
  | decrypted x ad hd hl hn => exact ⟨carried_eq.mpr ⟨x, ad, rfl, hl, rfl⟩, hn, rfl⟩

/-- Nothing else moves the window; what it refuses lies below it. -/
theorem step_of_not_accepted (hd : s.handshakeDone = true)
    (hx : acceptedText (call step s op) = none) :
    (s.step op).2.recvNonce = s.recvNonce ∧
      ∀ n, carried (call step s op) = some n → n < s.recvNonce := by
  have hno : ∀ x ad, op = .decrypt x ad → ¬ s.Accepts op := by
    intro x ad hop ha
    rw [acceptedText_eq.mpr ⟨ad, hop, ha⟩] at hx
    cases hx
  constructor
  · have he := step_exit s op
    generalize (s.step op).1 = r, (s.step op).2 = s' at he
    cases he with
    | failed op e hf => rfl
    | wrote payload hn => exact (maybeComplete_nonces _).2
    | read message hn hl => exact (maybeComplete_nonces _).2
    | encrypted plaintext ad _ hl => rfl
    | decrypted ciphertext ad _ hl hn => exact (hno _ _ rfl ⟨hd, hl, hn⟩).elim
  · intro n hc
    obtain ⟨x, ad, rfl, hl, rfl⟩ := carried_eq.mp hc
    rw [← UInt64.not_le]
    intro hn
    exact hno x ad rfl ⟨hd, hl, hn⟩

theorem wrapped_snoc {a : List Call} {c : Call} :
    Wrapped (a ++ [c]) ↔ Wrapped a ∨ carried c = some lastNonce := by
  simp only [Wrapped, List.mem_append, List.mem_singleton]
  constructor
  · rintro ⟨d, hd | rfl, hc⟩
    · exact .inl ⟨d, hd, hc⟩
    · exact .inr hc
  · rintro (⟨d, hd, hc⟩ | hc)
    · exact ⟨d, .inl hd, hc⟩
    · exact ⟨c, .inr rfl, hc⟩

theorem window_step {a : List Call} (hi : Window a s)
    (hq : Wrapped a → carried (call step s op) = none) :
    Window (a ++ [call step s op]) (s.step op).2 := by
  have hdone : (s.step op).2.handshakeDone = true := (step_of_done hi.done).1
  cases hx : acceptedText (call step s op) with
  | none =>
    obtain ⟨hsame, hlow⟩ := step_of_not_accepted hi.done hx
    have hlast : carried (call step s op) ≠ some lastNonce := by
      intro hc
      exact absurd (hlow _ hc) (UInt64.not_lt.mpr (le_lastNonce _))
    have hwrap : Wrapped (a ++ [call step s op]) ↔ Wrapped a := by
      rw [wrapped_snoc]
      exact or_iff_left hlast
    have hlist : (a ++ [call step s op]).filterMap acceptedText = a.filterMap acceptedText := by
      simp [hx]
    constructor
    · exact hdone
    · rw [hwrap, hsame, hlist]
      exact hi.wrapped
    · rw [hwrap, hsame, hlist]
      exact hi.rising
  | some x =>
    obtain ⟨hc, hle, hnext⟩ := step_of_accepted hx
    have hopen : ¬ Wrapped a := by
      intro hw
      rw [hq hw] at hc
      cases hc
    have hwrap : Wrapped (a ++ [call step s op]) ↔ Endian.toUInt64 x = lastNonce := by
      rw [wrapped_snoc, hc, Option.some_inj]
      exact or_iff_right hopen
    have hlist : (a ++ [call step s op]).filterMap acceptedText =
        a.filterMap acceptedText ++ [x] := by
      simp [hx]
    constructor
    · exact hdone
    · rw [hwrap, hnext, hlist]
      intro hl
      exact ⟨by rw [hl]; rfl, x, by simp, hl⟩
    · rw [hwrap, hnext, hlist]
      intro hl y hy
      have hpast := lt_succ_of_ne_last hl
      rcases List.mem_append.mp hy with hy | hy
      · exact UInt64.lt_trans (UInt64.lt_of_lt_of_le (hi.rising hopen y hy) hle) hpast
      · rw [List.mem_singleton.mp hy]
        exact hpast

/-- Replays are rejected throughout a run of a completed session just when nothing that carries a
nonce is given to `decrypt` after a ciphertext with the last nonce there is. -/
theorem replayRejected_iff (hd : s₀.handshakeDone = true) (hr : Run s₀ h s) :
    ReplayRejected h ↔ Along (fun a c => Wrapped a → carried c = none) h := by
  have hrising : (h.filterMap acceptedText).Pairwise
      (fun x y => Endian.toUInt64 x < Endian.toUInt64 y) ↔
        Along (fun a c => Wrapped a → carried c = none) h := by
    rw [pairwise_filterMap_iff_along]
    apply hr.along_iff (I := Window)
    · constructor
      · exact hd
      · rintro ⟨d, hm, -⟩
        cases hm
      · intro _ x hm
        cases hm
    · intro a s op _ hi hq
      exact window_step hi hq
    intro a s op _ hi
    constructor
    · intro hp hw
      obtain ⟨hzero, x, hx, hlast⟩ := hi.wrapped hw
      rw [Option.eq_none_iff_forall_ne_some]
      intro n hc
      -- the wrapped window lets every nonce through
      obtain ⟨y, ad, rfl, hl, rfl⟩ := carried_eq.mp hc
      have ha : s.Accepts (.decrypt y ad) := ⟨hi.done, hl, by rw [hzero]; exact UInt64.zero_le⟩
      have hlt := hp y (acceptedText_eq.mpr ⟨ad, rfl, ha⟩) x hx
      rw [hlast] at hlt
      exact absurd hlt (UInt64.not_lt.mpr (le_lastNonce _))
    · intro hq y hy x hx
      obtain ⟨hc, hle, -⟩ := step_of_accepted hy
      have hopen : ¬ Wrapped a := by
        intro hw
        rw [hq hw] at hc
        cases hc
      exact UInt64.lt_of_lt_of_le (hi.rising hopen x hx) hle
  constructor
  · intro hp
    exact hrising.mp hp.1
  · intro hq
    have hp := hrising.mpr hq
    refine ⟨hp, hp.imp ?_, ?_⟩
    · rintro x y hlt rfl
      exact UInt64.lt_irrefl _ hlt
    · intro c hc ciphertext ad _ hres
      have hcall := hr.call_of_mem hc
      rw [hcall, call_res] at hres
      rw [hcall, call_post, call_pre]
      exact step_of_failed hres

/-- A session that has sent its key and heard the zero key. -/
def linked (loc : Identity) : NoiseSession :=
  final step (create .xk .initiator loc (Vector.replicate 32 0))
    [.writeMessage [], .readMessage (List.replicate 32 0)]

theorem replayRejected_two_nonces : ReplayRejected
    (calls step (linked {}) [.decrypt (Endian.ofUInt64 3 ++ [7]) [], .decrypt [] [],
      .decrypt (Endian.ofUInt64 lastNonce) []]) := by
  refine (replayRejected_iff (by decide) (run_calls _ _)).mpr ?_
  simp only [calls, along_cons]
  refine ⟨?_, ?_, ?_, along_nil⟩
  · rintro ⟨d, hd, -⟩
    cases hd
  · intro _
    rfl
  · rintro ⟨d, hd, hc⟩
    rcases List.mem_pair.mp hd with rfl | rfl
    · exact absurd hc (by decide)
    · exact absurd hc (by decide)

/-- The last nonce wraps the window, so its ciphertext is accepted a second time. -/
theorem last_nonce_replayed : (linked {}).handshakeDone = true ∧ ¬ ReplayRejected
    (calls step (linked {})
      [.decrypt (Endian.ofUInt64 lastNonce) [], .decrypt (Endian.ofUInt64 lastNonce) []]) := by
  refine ⟨by decide, ?_⟩
  intro hp
  exact absurd hp.2.1 (by decide)

end Redesk.NoiseSession
