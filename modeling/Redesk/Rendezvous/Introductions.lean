import Redesk.Rendezvous.Writes

/-! Signed introductions: every key that the server attests is the one of the registration that is
in force. -/
namespace Redesk.Rendezvous.Loop
open Server Machine

variable {signer : Signer} {s : Loop} {h : List Call} {e : Event} {src dst : Endpoint}
  {data out : Bytes} {now : ℤ} {f g : Frame} {id : RedeskId} {k : StaticPubKey}
  {r : PeerRecord} {pk sig vk : Bytes}

/-- The registry holds no binding of `id` after the call. -/
def Gone (id : RedeskId) (c : Call) : Prop := c.post.registry[id]? = none

/-- The most recent accepted REGISTER for `id` has the key `k`, and its binding was not removed
since. -/
def Current (id : RedeskId) (k : StaticPubKey) (h : List Call) : Prop :=
  Since (fun c => Registers id k c ∧ ¬ Gone id c)
    (fun c => (∃ k', Registers id k' c) ∨ Gone id c) h

/-- A frame that the call `c` sends out after the calls `a` introduces its id with the key `k`. -/
structure Introduces (signer : Signer) (a : List Call) (c : Call) (f : Frame) (k : StaticPubKey) :
    Prop where
  /-- An accepted REGISTER is answered before the round can sweep its binding away. -/
  latest : Registers f.id k c ∨ (∀ k', ¬ Registers f.id k' c) ∧ Current f.id k a
  length : k.length = kStaticPubKeyLen
  signed : (signer.signPeerKey f.id k).status.ok = true
  body : f.body = encodeAttestation k (signer.signPeerKey f.id k).value signer.verifyKey
  /-- Key, signature and verify key stand in the body uncut if they fit their length bytes. -/
  whole : (signer.signPeerKey f.id k).value.length ≤ 255 → signer.verifyKey.length ≤ 255 →
    f.body = 32 :: (k ++ UInt8.ofNat (signer.signPeerKey f.id k).value.length ::
      ((signer.signPeerKey f.id k).value ++
        UInt8.ofNat signer.verifyKey.length :: signer.verifyKey))

/-- What a run of the server promises of its introductions. -/
structure Genuine (signer : Signer) (h : List Call) : Prop where
  attested : Along (fun a c => ∀ dst out f, c.res = some (dst, out) → decodeFrame out = .good f →
    f.type = .registerOk ∨ f.type = .lookupOk → ∃ k, Introduces signer a c f k) h
  /-- What is no accepted REGISTER for an id leaves its key as it is. -/
  kept : ∀ c ∈ h, ∀ id : RedeskId, (∀ k, ¬ Registers id k c) → Gone id c ∨
    c.post.registry[id]?.map (·.staticPubkey) = c.pre.registry[id]?.map (·.staticPubkey)

theorem length_pushLv (v : Bytes) : (pushLv v).length ≤ 256 := by
  simp only [pushLv, List.length_cons, List.length_take]
  split <;> omega

theorem pushLv_of_le {v : Bytes} (h : v.length ≤ 255) : pushLv v = UInt8.ofNat v.length :: v := by
  simp only [pushLv, if_neg (Nat.not_lt.mpr h), List.take_length]

theorem length_encodeAttestation (pk sig vk : Bytes) :
    (encodeAttestation pk sig vk).length ≤ 768 := by
  have hpk := length_pushLv pk
  have hsig := length_pushLv sig
  have hvk := length_pushLv vk
  simp only [encodeAttestation, List.length_append]
  omega

theorem encodeAttestation_of_le (hpk : pk.length = kStaticPubKeyLen) (hsig : sig.length ≤ 255)
    (hvk : vk.length ≤ 255) : encodeAttestation pk sig vk =
      32 :: (pk ++ UInt8.ofNat sig.length :: (sig ++ UInt8.ofNat vk.length :: vk)) := by
  have hlen : UInt8.ofNat pk.length = 32 := by rw [hpk]; rfl
  have hshort : pk.length ≤ 255 := by rw [hpk]; decide
  simp [encodeAttestation, pushLv_of_le hshort, pushLv_of_le hsig, pushLv_of_le hvk, hlen]

/-- A binding is kept under an id that fits its length byte, and its key is the one of the most
recent accepted REGISTER. -/
structure Traced (h : List Call) (s : Loop) : Prop where
  owned : s.registry.Owned
  short : ∀ (id : RedeskId) (r : PeerRecord), s.registry[id]? = some r → id.length ≤ 255
  current : ∀ (id : RedeskId) (r : PeerRecord), s.registry[id]? = some r →
    Current id r.staticPubkey h

/-- A Keepalive is not a REGISTER. -/
theorem not_registers_of_type {c : Call} {src : Endpoint} {data : Bytes} {now sweepNow : ℤ}
    (hop : c.op = .datagram src data now sweepNow) (hf : frameOf data = some f)
    (ht : f.type ≠ .register) : ¬ Registers id k c := by
  rintro ⟨src', data', now', sweepNow', f', hop', hf', ht', -⟩
  rw [hop] at hop'
  cases hop'
  obtain rfl := Option.some.inj (hf.symm.trans hf')
  exact ht ht'

variable (signer) in
/-- How the binding of an id before the sweep of a round comes from what was there before. -/
theorem binding_handled (ho : s.registry.Owned)
    (hr : (handled signer s e).registry[id]? = some r) :
    (id.length ≤ 255 ∧ Registers id r.staticPubkey (call (step signer) s e)) ∨
    (∀ k, ¬ Registers id k (call (step signer) s e)) ∧
      ∃ r₀, s.registry[id]? = some r₀ ∧ r₀.staticPubkey = r.staticPubkey := by
  rcases getElem?_handled signer s e id with ⟨r', hw, rfl, hr'⟩ | ⟨hw, hsame⟩
  · obtain rfl := Option.some.inj (hr.symm.trans hr')
    obtain ⟨src, data, now, sweepNow, f, rfl, hf, ha, hcase⟩ := written_cases hw
    rcases hcase with ⟨ht, rfl⟩ | ⟨ht, r₀, hr₀, rfl⟩
    · exact .inl ⟨(frameOf_fits hf).1.id, src, data, now, sweepNow, f, rfl, hf, ht, rfl, rfl,
        Registry.upsert_ok_iff.mpr ha⟩
    · refine .inr ⟨fun k => not_registers_of_type rfl hf (by simp [ht]), r₀, ?_, rfl⟩
      rw [(ho f.id r₀ hr₀).1]
      exact hr₀
  · refine .inr ⟨?_, r, hsame.symm.trans hr, rfl⟩
    intro k hk
    obtain ⟨r', hr', hid, -⟩ := hk.written
    exact hw r' hr' hid

variable (signer e) in
theorem traced_step (ht : Traced h s) :
    Traced (h ++ [call (step signer) s e]) (step signer s e).2 where
  owned := owned_step ht.owned
  short id r hr := by
    rcases binding_handled signer ht.owned (handled_of_post hr) with ⟨hid, -⟩ | ⟨-, r₀, hr₀, -⟩
    · exact hid
    · exact ht.short id r₀ hr₀
  current id r hr := by
    have hhere : ¬ Gone id (call (step signer) s e) := by
      intro hgone
      exact absurd (hr.symm.trans hgone) (by simp)
    rw [Current, since_snoc]
    rcases binding_handled signer ht.owned (handled_of_post hr) with ⟨-, hreg⟩ | ⟨hno, r₀, hr₀, hk⟩
    · exact .inl ⟨hreg, hhere⟩
    · refine .inr ⟨?_, hk ▸ ht.current id r₀ hr₀⟩
      rintro (⟨k', hk'⟩ | hgone)
      · exact hno k' hk'
      · exact hhere hgone

theorem traced_run {start : ℤ} (hr : Run signer { lastSweep := start } h s) : Traced h s := by
  induction hr with
  | nil =>
    constructor
    · exact Registry.owned_empty
    · intro id r hr
      simp at hr
    · intro id r hr
      simp at hr
  | snoc hr e ih => exact traced_step signer e ih

/-- Answers fit, but for a missing target that is too long for the id of a frame. -/
theorem fits_of_answer (ht : Traced h s) (hf : frameOf data = some f)
    (ha : Answer signer s.registry src f now dst g)
    (hlong : g.type = .lookupFail → (target f).length ≤ 255) : g.Fits := by
  have hfits := (frameOf_fits hf).1
  cases ha with
  | registered type taken signed =>
    exact ⟨by simp, hfits.id, (length_encodeAttestation _ _ _).trans (by decide)⟩
  | @found r type bound signed =>
    exact ⟨by simp, ht.short _ r bound, (length_encodeAttestation _ _ _).trans (by decide)⟩
  | missing type free => exact ⟨by simp, hlong rfl, Nat.zero_le _⟩
  | relayed type bound => exact ⟨by simp, hfits.id, hfits.body⟩

/-- The key of an answer is the one of the binding that it was made from. -/
theorem introduces_of_answer (ht : Traced h s) (hf : frameOf data = some f)
    (ha : Answer signer s.registry src f now dst g)
    (hg : g.type = .registerOk ∨ g.type = .lookupOk) (sweepNow : ℤ) : ∃ k,
      Introduces signer h (call (step signer) s (.datagram src data now sweepNow)) g k := by
  cases ha with
  | registered type taken signed =>
    have hkey : (f.body.take kStaticPubKeyLen).length = kStaticPubKeyLen := taken.2.1
    refine ⟨f.body.take kStaticPubKeyLen, ?_⟩
    constructor
    · exact .inl ⟨src, data, now, sweepNow, f, rfl, hf, type, rfl, rfl,
        Registry.upsert_ok_iff.mpr taken⟩
    · exact hkey
    · exact signed
    · rfl
    · exact encodeAttestation_of_le hkey
  | @found r type bound signed =>
    obtain ⟨hid, -, hkey⟩ := ht.owned _ r bound
    rw [hid] at signed ⊢
    refine ⟨r.staticPubkey, ?_⟩
    constructor
    · exact .inr ⟨fun k => not_registers_of_type rfl hf (by simp [type]), ht.current _ r bound⟩
    · exact hkey
    · exact signed
    · rfl
    · exact encodeAttestation_of_le hkey
  | missing type free =>
    rcases hg with hg | hg <;> cases hg
  | relayed type bound =>
    rcases hg with hg | hg <;> cases hg

theorem attested_step (ht : Traced h s) (hres : (step signer s e).1 = some (dst, out))
    (hd : decodeFrame out = .good g) (hg : g.type = .registerOk ∨ g.type = .lookupOk) :
    ∃ k, Introduces signer h (call (step signer) s e) g k := by
  obtain ⟨src, data, now, sweepNow, f, g', rfl, hf, rfl, ha⟩ := step_eq_some hres
  have hknown : g'.type ≠ .unknown := by
    cases ha <;> simp
  have hcut : decodeFrame (encodeFrame g') = .good g'.cut := by
    simpa using decodeFrame_encodeFrame (s := []) hknown
  have hcutEq : g'.cut = g := congrArg Result.value (hcut.symm.trans hd)
  have hg' : g'.type = .registerOk ∨ g'.type = .lookupOk := by
    rw [← hcutEq] at hg
    exact hg
  have hfits : g'.Fits := by
    refine fits_of_answer ht hf ha fun hfail => ?_
    rcases hg' with hg' | hg' <;> rw [hfail] at hg' <;> cases hg'
  obtain ⟨k, hk⟩ := introduces_of_answer ht hf ha hg' sweepNow
  rw [Frame.cut_of_fits hfits] at hcutEq
  exact ⟨k, hcutEq ▸ hk⟩

/-- What is no accepted REGISTER for `id` leaves its key, or the round sweeps its binding away. -/
theorem kept_step (ho : s.registry.Owned) (hn : ∀ k, ¬ Registers id k (call (step signer) s e)) :
    Gone id (call (step signer) s e) ∨ (step signer s e).2.registry[id]?.map (·.staticPubkey) =
      s.registry[id]?.map (·.staticPubkey) := by
  cases hr : (step signer s e).2.registry[id]? with
  | none => exact .inl hr
  | some r =>
    rcases binding_handled signer ho (handled_of_post hr) with ⟨-, hreg⟩ | ⟨-, r₀, hr₀, hk⟩
    · exact absurd hreg (hn _)
    · exact .inr (by rw [hr₀, Option.map_some, Option.map_some, hk])

/-- In every run of the server each introduction is genuine. -/
theorem genuine_run {start : ℤ} (hr : Run signer { lastSweep := start } h s) :
    Genuine signer h where
  attested := by
    intro a c b hs
    subst hs
    obtain ⟨ha, hc, -⟩ := hr.split
    rw [hc]
    intro dst out f hres hd hf
    exact attested_step (traced_run ha) hres hd hf
  kept := by
    intro c hc id hn
    obtain ⟨a, b, rfl⟩ := List.append_of_mem hc
    obtain ⟨ha, hcall, -⟩ := hr.split
    rw [hcall] at hn ⊢
    exact kept_step (traced_run ha).owned hn

theorem genuine_of_registered : Genuine insecureTestSigner (calls (step insecureTestSigner)
    { lastSweep := 0 }
    [.datagram { port := 1 }
      (encodeFrame { type := .register, id := [9], body := List.replicate 32 5 }) 0 0,
    .datagram { port := 2 } (encodeFrame { type := .lookup, body := [9] }) 1 1]) :=
  genuine_run (run_calls _ _)

end Redesk.Rendezvous.Loop
