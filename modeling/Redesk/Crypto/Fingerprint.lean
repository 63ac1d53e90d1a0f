import Mathlib.Data.List.Basic
import Mathlib.Tactic.Ring
import Mathlib.Logic.Function.Basic
import Redesk.Crypto.Noise

/-! The fingerprint of an identity: a hash of its public key, as five groups of decimal digits. A
hash absorbs a list, one element after the other, by steps that lose nothing; the groups are
decimal numbers of a fixed width between separators. -/
namespace Absorb
open Function

variable {σ β : Type*} {f : σ → β → σ} {as cs xs ys : List β} {x y : β}

/-- Steps that lose nothing of the state lose nothing together. -/
theorem foldl_injective (hs : ∀ b, Injective (f · b)) (bs : List β) :
    Injective fun s => bs.foldl f s := by
  induction bs with
  | nil => exact injective_id
  | cons b bs ih => exact ih.comp (hs b)

/-- A change of one element is seen in the end, whatever surrounds it. -/
theorem foldl_ne (hs : ∀ b, Injective (f · b)) (hf : ∀ s, Injective (f s)) (hxy : x ≠ y) (s : σ) :
    (as ++ x :: cs).foldl f s ≠ (as ++ y :: cs).foldl f s := by
  rw [List.foldl_append, List.foldl_append, List.foldl_cons, List.foldl_cons]
  intro heq
  exact hxy (hf _ (foldl_injective hs cs heq))

/-- Lists of one length that agree in all places but one. -/
theorem foldl_ne_of_getElem (hs : ∀ b, Injective (f · b)) (hf : ∀ s, Injective (f s))
    (hlen : xs.length = ys.length) {i : ℕ} (hx : i < xs.length) (hy : i < ys.length)
    (hne : xs[i] ≠ ys[i]) (heq : ∀ j (hj : j < xs.length) (hj' : j < ys.length), j ≠ i →
      xs[j] = ys[j]) (s : σ) : xs.foldl f s ≠ ys.foldl f s := by
  have htake : xs.take i = ys.take i := by
    apply List.ext_getElem (by simp [hlen])
    intro j hj hj'
    rw [List.length_take] at hj
    rw [List.getElem_take, List.getElem_take]
    exact heq j (by omega) (by omega) (by omega)
  have hdrop : xs.drop (i + 1) = ys.drop (i + 1) := by
    apply List.ext_getElem (by simp [hlen])
    intro j hj hj'
    rw [List.length_drop] at hj
    rw [List.getElem_drop, List.getElem_drop]
    exact heq (i + 1 + j) (by omega) (by omega) (by omega)
  rw [← List.take_append_drop i xs, ← List.take_append_drop i ys, List.drop_eq_getElem_cons hx,
    List.drop_eq_getElem_cons hy, htake, hdrop]
  exact foldl_ne hs hf hne s

end Absorb

namespace Decimal

variable {α : Type*} {k m n : ℕ}

/-- The decimal digits of `n`, with zeros before them up to the width `k`. -/
def padded (k n : ℕ) : List Char := (Nat.toDigits 10 n).leftpad k '0'

theorem ofDigitChars_padded (k n : ℕ) : Nat.ofDigitChars 10 (padded k n) 0 = n := by
  rw [padded, List.leftpad, Nat.ofDigitChars_append, Nat.ofDigitChars_replicate_zero, Nat.mul_zero,
    Nat.ofDigitChars_ten_toDigits]

theorem padded_injective (k : ℕ) : Function.Injective (padded k) := by
  intro m n h
  rw [← ofDigitChars_padded k m, h, ofDigitChars_padded]

theorem length_padded (hk : 0 < k) (hn : n < 10 ^ k) : (padded k n).length = k := by
  rw [padded, List.length_leftpad]
  exact Nat.max_eq_left ((Nat.length_toDigits_le_iff (by decide) hk).mpr hn)

theorem isDigit_of_mem_padded {c : Char} (hc : c ∈ padded k n) : c.isDigit := by
  rw [padded, List.leftpad] at hc
  rcases List.mem_append.mp hc with hc | hc
  · rw [List.eq_of_mem_replicate hc]
    rfl
  · exact Nat.isDigit_of_mem_toDigits (by decide) (by decide) hc

/-- Fields of one width are told apart, whatever stands between them. -/
theorem intercalate_inj {sep : List α} {xs ys : List (List α)} (hx : ∀ x ∈ xs, x.length = k)
    (hy : ∀ y ∈ ys, y.length = k) (hlen : xs.length = ys.length)
    (h : sep.intercalate xs = sep.intercalate ys) : xs = ys := by
  induction xs generalizing ys with
  | nil => exact (List.length_eq_zero_iff.mp hlen.symm).symm
  | cons x xs ih =>
    cases ys with
    | nil => cases hlen
    | cons y ys =>
      have hwidth : x.length = y.length :=
        (hx x (List.mem_cons_self ..)).trans (hy y (List.mem_cons_self ..)).symm
      have hlen' : xs.length = ys.length := Nat.succ.inj hlen
      cases xs with
      | nil =>
        obtain rfl := List.length_eq_zero_iff.mp hlen'.symm
        simpa using h
      | cons x' xs =>
        cases ys with
        | nil => cases hlen'
        | cons y' ys =>
          simp only [List.intercalate_cons_cons, List.append_assoc] at h
          obtain ⟨rfl, hrest⟩ := List.append_inj h hwidth
          have hrest := List.append_cancel_left hrest
          rw [ih (fun x hm => hx x (List.mem_cons_of_mem _ hm))
            (fun y hm => hy y (List.mem_cons_of_mem _ hm)) hlen' hrest]

end Decimal

namespace Redesk

variable {h : UInt64} {k k' : PublicKey}

/-- The five numbers of a safety number; the last one repeats digits of the hash. -/
def fingerprintGroups (h : UInt64) : List UInt32 :=
  [(h % 100000).toUInt32, (h / 100000 % 100000).toUInt32, (h / 10000000000 % 100000).toUInt32,
    (h / 1000000000000000 % 100000).toUInt32, ((h >>> 1) % 100000).toUInt32]

/-- The hash as `"%05u %05u %05u %05u %05u"` prints it. -/
def safetyNumber (h : UInt64) : String :=
  .ofList ([' '].intercalate ((fingerprintGroups h).map fun g => Decimal.padded 5 g.toNat))

def Identity.fingerprint (i : Identity) : String := safetyNumber (fnv1a i.publicKey.toList)

/-- The keys differ in one byte. -/
def DifferInOneByte (k k' : PublicKey) : Prop := ∃! i : Fin 32, k[i] ≠ k'[i]

/-- A change of one byte of a key is seen in its hash and in its fingerprint. -/
structure ExposesChange : Prop where
  hash : ∀ k k', DifferInOneByte k k' → fnv1a k.toList ≠ fnv1a k'.toList
  rendering : Function.Injective safetyNumber
  /-- The text fits the buffer of 64 characters that it is printed to. -/
  length : ∀ h, (safetyNumber h).length = 29
  groups : ∀ h, (fingerprintGroups h).length = 5 ∧
    ∀ g ∈ fingerprintGroups h, (Decimal.padded 5 g.toNat).length = 5 ∧
      ∀ c ∈ Decimal.padded 5 g.toNat, c.isDigit
  fingerprint : ∀ a b : Identity, DifferInOneByte a.publicKey b.publicKey →
    a.fingerprint ≠ b.fingerprint

/-- The prime of the hash is odd, and so has an inverse. -/
theorem eq_of_mul_prime {a b : UInt64} (heq : a * 1099511628211 = b * 1099511628211) : a = b := by
  have hinv : (1099511628211 : UInt64) * 14886173955864302971 = 1 := by decide
  have hprod := congrArg (· * (14886173955864302971 : UInt64)) heq
  simpa only [UInt64.mul_assoc, hinv, UInt64.mul_one] using hprod

theorem fnv_injective_state (b : UInt8) :
    Function.Injective fun h : UInt64 => (h ^^^ b.toUInt64) * 1099511628211 := by
  intro g h heq
  exact (UInt64.xor_left_inj _).mp (eq_of_mul_prime heq)

theorem fnv_injective_byte (h : UInt64) :
    Function.Injective fun b : UInt8 => (h ^^^ b.toUInt64) * 1099511628211 := by
  intro b c heq
  have hword := (UInt64.xor_right_inj h).mp (eq_of_mul_prime heq)
  exact UInt8.toUInt64_inj.mp hword

theorem fnv1a_ne (hd : DifferInOneByte k k') : fnv1a k.toList ≠ fnv1a k'.toList := by
  obtain ⟨i, hne, hunique⟩ := hd
  have hlen : k.toList.length = k'.toList.length := by simp
  refine Absorb.foldl_ne_of_getElem fnv_injective_state fnv_injective_byte hlen
    (i := i) (by simp) (by simp) (by simpa using hne) ?_ _
  intro j hj hj' hji
  rw [Vector.length_toList] at hj
  by_contra hdiff
  have hsame := hunique ⟨j, hj⟩ (by simpa using hdiff)
  exact hji (congrArg Fin.val hsame)

/-- The low five digits of a word, as a number. -/
theorem toNat_group (w : UInt64) : (w % 100000).toUInt32.toNat = w.toNat % 100000 := by
  rw [UInt64.toNat_toUInt32, UInt64.toNat_mod]
  exact Nat.mod_eq_of_lt ((Nat.mod_lt _ (by decide)).trans (by decide))

theorem length_padded_mod (w : UInt64) :
    (Decimal.padded 5 (w % 100000).toUInt32.toNat).length = 5 := by
  rw [toNat_group]
  exact Decimal.length_padded (by decide) (Nat.mod_lt _ (by decide))

theorem length_group {g : UInt32} (hg : g ∈ fingerprintGroups h) :
    (Decimal.padded 5 g.toNat).length = 5 := by
  simp only [fingerprintGroups, List.mem_cons, List.not_mem_nil, or_false] at hg
  rcases hg with rfl | rfl | rfl | rfl | rfl <;> exact length_padded_mod _

theorem length_safetyNumber (h : UInt64) : (safetyNumber h).length = 29 := by
  simp only [safetyNumber, fingerprintGroups, String.length_ofList, List.map_cons, List.map_nil,
    List.intercalate_cons_cons, List.intercalate_singleton, List.length_append, length_padded_mod]
  rfl

/-- The first four groups hold all digits of a hash. -/
theorem fingerprintGroups_injective : Function.Injective fingerprintGroups := by
  intro g h heq
  simp only [fingerprintGroups, List.cons.injEq] at heq
  obtain ⟨h₀, h₁, h₂, h₃, -⟩ := heq
  replace h₀ := congrArg UInt32.toNat h₀
  replace h₁ := congrArg UInt32.toNat h₁
  replace h₂ := congrArg UInt32.toNat h₂
  replace h₃ := congrArg UInt32.toNat h₃
  simp only [toNat_group, UInt64.toNat_div, UInt64.reduceToNat] at h₀ h₁ h₂ h₃
  have hg := g.toNat_lt
  have hh := h.toNat_lt
  apply UInt64.toNat_inj.mp
  omega

theorem safetyNumber_injective : Function.Injective safetyNumber := by
  intro g h heq
  have hlists := String.ofList_injective heq
  have hgroups := Decimal.intercalate_inj (k := 5) ?_ ?_ (by simp [fingerprintGroups]) hlists
  · have hdigits : Function.Injective fun g : UInt32 => Decimal.padded 5 g.toNat :=
      (Decimal.padded_injective 5).comp fun _ _ => UInt32.toNat_inj.mp
    exact fingerprintGroups_injective (List.map_injective_iff.mpr hdigits hgroups)
  all_goals
    intro digits hm
    obtain ⟨group, hg, rfl⟩ := List.mem_map.mp hm
    exact length_group hg

theorem exposesChange : ExposesChange where
  hash _ _ hd := fnv1a_ne hd
  rendering := safetyNumber_injective
  length := length_safetyNumber
  groups h := by
    refine ⟨rfl, fun g hg => ⟨length_group hg, ?_⟩⟩
    intro c hc
    exact Decimal.isDigit_of_mem_padded hc
  fingerprint _ _ hd heq := fnv1a_ne hd (safetyNumber_injective heq)

end Redesk
