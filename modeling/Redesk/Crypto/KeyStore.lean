import Redesk.Crypto.Fingerprint
import Redesk.Machine.Past

/-! The device identities of the default build: the generator of key pairs and the store that keeps
one identity, over all runs of a store. -/
namespace Redesk
open Machine

instance : Inhabited Identity := ⟨{}⟩

/-- Fake scalar multiplication: the bytes in the other direction, each with a constant. -/
def derivePublic (sk : SecretKey) : PublicKey := Vector.ofFn fun i => sk[31 - i.val] ^^^ 0x5A

def makeStubIdentity (seed : UInt8) : Identity :=
  let secretKey : SecretKey := Vector.ofFn fun i => .ofNat (seed.toNat + i * 7 + 1)
  { secretKey, publicKey := derivePublic secretKey, hasSecret := true }

structure StubKeyStore where
  identity : Identity := {}
  haveIdentity : Bool := false
  seed : UInt8 := 1
  deriving DecidableEq, Repr

namespace StubKeyStore

def load (s : StubKeyStore) : Result Identity :=
  if s.haveIdentity then .good s.identity else .fail .notFound "no stored identity"

def generate (s : StubKeyStore) : Result Identity × StubKeyStore :=
  let identity := makeStubIdentity s.seed
  (.good identity, { identity, haveIdentity := true, seed := s.seed + 1 })

def store (s : StubKeyStore) (identity : Identity) : Status × StubKeyStore :=
  (.success, { s with identity, haveIdentity := true })

def loadOrGenerate (s : StubKeyStore) : Result Identity × StubKeyStore :=
  if s.haveIdentity then (.good s.identity, s) else s.generate

inductive Op where
  | load
  | generate
  | store (identity : Identity)
  | loadOrGenerate
  deriving DecidableEq, Repr

inductive Response where
  | identity (result : Result Identity)
  | status (status : Status)
  deriving DecidableEq, Repr

def step (s : StubKeyStore) : Op → Response × StubKeyStore
  | .load => (.identity s.load, s)
  | .generate => (.identity s.generate.1, s.generate.2)
  | .store identity => (.status (s.store identity).1, (s.store identity).2)
  | .loadOrGenerate => (.identity s.loadOrGenerate.1, s.loadOrGenerate.2)

abbrev History := List (Call StubKeyStore Op Response)

/-- The identity that a call returns as the stored one or was given to store. -/
def persisted (c : Call StubKeyStore Op Response) : Option Identity :=
  match c.op, c.res with
  | .store identity, _ => some identity
  | .generate, .identity r => some r.value
  | .loadOrGenerate, .identity r => some r.value
  | _, _ => none

/-- A call that makes a new identity. -/
def Generates (c : Call StubKeyStore Op Response) : Prop :=
  c.op = .generate ∨ c.op = .loadOrGenerate ∧ c.pre.haveIdentity = false

instance : DecidablePred Generates := fun _ => inferInstanceAs (Decidable (_ ∨ _ ∧ _))

/-- The identities that were made, in their order. -/
def generated (h : History) : List Identity :=
  h.filterMap fun c => if Generates c then persisted c else none

/-- What a key store does in a run. -/
structure Persists (h : History) : Prop where
  /-- A device has the identity it persisted last, or none. -/
  loads : Along (fun a c => c.op = .load → c.post = c.pre ∧
    c.res = .identity (match latest persisted a with
      | some identity => .good identity
      | none => .fail .notFound "no stored identity")) h
  /-- A device that has an identity keeps it. -/
  keeps : Along (fun a c => c.op = .loadOrGenerate → ∀ identity,
    latest persisted a = some identity → c.res = .identity (.good identity) ∧ c.post = c.pre) h
  /-- Only a device without identity makes one without being told to. -/
  generates : Along (fun a c => Generates c ↔
    c.op = .generate ∨ c.op = .loadOrGenerate ∧ latest persisted a = none) h
  seeds : ∀ n i, (generated h)[n]? = some i → i = makeStubIdentity (.ofNat (n + 1))
  /-- Each half of a key pair gives the other. -/
  pairs : ∀ i ∈ generated h, i.hasSecret = true ∧ i.publicKey = derivePublic i.secretKey ∧
    i.secretKey = derivePublic i.publicKey
  /-- The fingerprints differ until the seeds wrap. -/
  distinct : ∀ m n i j, (generated h)[m]? = some i → (generated h)[n]? = some j →
    (i.fingerprint = j.fingerprint ↔ m % 256 = n % 256)

theorem derivePublic_involutive : Function.Involutive derivePublic := by
  intro sk
  ext i hi
  have hrev : 31 - (31 - i) = i := by omega
  simp [derivePublic, hrev]

/-- The public key that a seed gives, as a list of bytes. -/
def publicBytes (seed : ℕ) : Bytes :=
  (List.range 32).map fun i => .ofNat (seed + (31 - i) * 7 + 1) ^^^ 0x5A

theorem publicKey_makeStubIdentity (seed : UInt8) :
    (makeStubIdentity seed).publicKey.toList = publicBytes seed.toNat := by
  apply List.ext_getElem
  · simp [publicBytes]
  · intro i hi hi'
    simp [makeStubIdentity, derivePublic, publicBytes]

set_option maxRecDepth 100000 in
theorem nodup_hashes :
    ((List.range 256).map fun seed => (fnv1a (publicBytes seed)).toNat).Nodup := by
  decide +kernel

/-- The fingerprint tells the seed. -/
theorem fingerprint_makeStubIdentity_injective :
    Function.Injective fun seed => (makeStubIdentity seed).fingerprint := by
  intro a b heq
  have hhash := safetyNumber_injective heq
  rw [publicKey_makeStubIdentity, publicKey_makeStubIdentity] at hhash
  apply UInt8.toNat_inj.mp
  exact List.inj_on_of_nodup_map nodup_hashes (List.mem_range.mpr a.toNat_lt)
    (List.mem_range.mpr b.toNat_lt) (congrArg UInt64.toNat hhash)

variable {s : StubKeyStore} {h : History}

/-- What a store keeps is what its calls persisted last. -/
def Kept (h : History) (s : StubKeyStore) : Prop :=
  latest persisted h = if s.haveIdentity then some s.identity else none

/-- The next seed and the identities made so far. -/
def Seeded (h : History) (s : StubKeyStore) : Prop :=
  s.seed = .ofNat ((generated h).length + 1) ∧
    ∀ n i, (generated h)[n]? = some i → i = makeStubIdentity (.ofNat (n + 1))

theorem kept_step (op : Op) (hk : Kept h s) : Kept (h ++ [call step s op]) (step s op).2 := by
  unfold Kept at hk ⊢
  rw [latest_snoc, hk]
  cases op with
  | load => rfl
  | generate => rfl
  | store identity => rfl
  | loadOrGenerate =>
    cases hs : s.haveIdentity <;> simp [step, persisted, loadOrGenerate, generate, hs, Result.good]

theorem step_of_generates {op : Op} (hg : Generates (call step s op)) :
    persisted (call step s op) = some (makeStubIdentity s.seed) ∧
      (step s op).2.seed = s.seed + 1 := by
  rcases hg with hop | ⟨hop, hnone⟩
  · obtain rfl : op = .generate := hop
    exact ⟨rfl, rfl⟩
  · obtain rfl : op = .loadOrGenerate := hop
    rw [call_pre] at hnone
    simp [step, persisted, loadOrGenerate, generate, hnone, Result.good]

theorem seed_of_not_generates {op : Op} (hg : ¬ Generates (call step s op)) :
    (step s op).2.seed = s.seed := by
  cases op with
  | load => rfl
  | generate => exact absurd (.inl rfl) hg
  | store identity => rfl
  | loadOrGenerate =>
    cases hs : s.haveIdentity
    · exact absurd (.inr ⟨rfl, hs⟩) hg
    · simp [step, loadOrGenerate, hs]

theorem seeded_step (op : Op) (hs : Seeded h s) :
    Seeded (h ++ [call step s op]) (step s op).2 := by
  obtain ⟨hseed, hmade⟩ := hs
  unfold Seeded generated
  rw [List.filterMap_append, ← generated]
  by_cases hg : Generates (call step s op)
  · obtain ⟨hp, hnext⟩ := step_of_generates hg
    have hlast : List.filterMap (fun c => if Generates c then persisted c else none)
        [call step s op] = [makeStubIdentity s.seed] := by
      simp [hg, hp]
    rw [hlast]
    refine ⟨?_, ?_⟩
    · rw [hnext, hseed, List.length_append, List.length_singleton, UInt8.ofNat_add (_ + 1) 1]
      rfl
    · intro n i hn
      rcases lt_or_ge n (generated h).length with hlt | hge
      · rw [List.getElem?_append_left hlt] at hn
        exact hmade n i hn
      · rw [List.getElem?_append_right hge] at hn
        have hzero : n - (generated h).length = 0 := by
          by_contra hne
          simp [hne] at hn
        rw [hzero, List.getElem?_cons_zero, Option.some.injEq] at hn
        rw [← hn, hseed, show n = (generated h).length by omega]
  · have hlast : List.filterMap (fun c => if Generates c then persisted c else none)
        [call step s op] = [] := by
      simp [hg]
    rw [hlast, List.append_nil, seed_of_not_generates hg]
    exact ⟨hseed, hmade⟩

theorem kept_run (hr : Run step {} h s) : Kept h s := by
  induction hr with
  | nil => rfl
  | snoc hr op ih => exact kept_step op ih

theorem seeded_run (hr : Run step {} h s) : Seeded h s := by
  induction hr with
  | nil => exact ⟨rfl, by simp [generated]⟩
  | snoc hr op ih => exact seeded_step op ih

/-- A property of the calls of a store that keeps what was persisted last. -/
theorem along_of_kept {P : History → Call StubKeyStore Op Response → Prop}
    (hr : Run step {} h s) (hP : ∀ h s op, Kept h s → P h (call step s op)) : Along P h := by
  rintro a c b rfl
  obtain ⟨hpre, hc, -⟩ := hr.split
  rw [hc]
  exact hP a c.pre c.op (kept_run hpre)

theorem Kept.latest_of_have (hk : Kept h s) (hs : s.haveIdentity = true) :
    latest persisted h = some s.identity := by
  rw [hk, if_pos hs]

theorem Kept.latest_of_not_have (hk : Kept h s) (hs : s.haveIdentity = false) :
    latest persisted h = none := by
  rw [hk, hs]
  rfl

theorem persists {h : History} {s : StubKeyStore} (hr : Run step {} h s) : Persists h where
  loads := by
    refine along_of_kept hr ?_
    rintro h s op hk rfl
    refine ⟨rfl, ?_⟩
    rw [call_res, step, load]
    cases hs : s.haveIdentity
    · rw [hk.latest_of_not_have hs]
      rfl
    · rw [hk.latest_of_have hs]
      rfl
  keeps := by
    refine along_of_kept hr ?_
    rintro h s op hk rfl identity hlast
    have hs : s.haveIdentity = true := by
      by_contra hs
      rw [Bool.not_eq_true] at hs
      rw [hk.latest_of_not_have hs] at hlast
      cases hlast
    rw [hk.latest_of_have hs, Option.some.injEq] at hlast
    subst hlast
    simp [step, loadOrGenerate, hs]
  generates := by
    refine along_of_kept hr ?_
    intro h s op hk
    unfold Generates
    rw [call_pre]
    cases hs : s.haveIdentity
    · simp [hk.latest_of_not_have hs]
    · simp [hk.latest_of_have hs]
  seeds := (seeded_run hr).2
  pairs := by
    intro i hi
    obtain ⟨n, hn⟩ := List.mem_iff_getElem?.mp hi
    rw [(seeded_run hr).2 n i hn]
    exact ⟨rfl, rfl, (derivePublic_involutive _).symm⟩
  distinct := by
    intro m n i j hi hj
    obtain ⟨-, hmade⟩ := seeded_run hr
    rw [hmade m i hi, hmade n j hj, fingerprint_makeStubIdentity_injective.eq_iff]
    rw [← UInt8.toNat_inj, UInt8.toNat_ofNat', UInt8.toNat_ofNat']
    omega

/-- The identities of this run come round to the first one. -/
theorem persists_renewed : Persists (calls step {} (.replicate 257 .generate)) :=
  persists (run_calls _ _)

end StubKeyStore
end Redesk
