import Mathlib.Data.List.Basic
import Mathlib.Tactic.Common
import Mathlib.Tactic.Ring

/-! Little-endian bytes of a number, and the shift loops that write a word out and read it back. -/
namespace Endian

/-- The `k` low bytes of `n`, lowest first. -/
def encode : ℕ → ℕ → List UInt8
  | 0, _ => []
  | k + 1, n => UInt8.ofNat n :: encode k (n / 256)

def decode : List UInt8 → ℕ
  | [] => 0
  | b :: bs => b.toNat + 256 * decode bs

@[simp] theorem length_encode (k n : ℕ) : (encode k n).length = k := by
  induction k generalizing n with
  | zero => rfl
  | succ k ih => simp [encode, ih]

theorem decode_encode (k n : ℕ) : decode (encode k n) = n % 256 ^ k := by
  induction k generalizing n with
  | zero => simp [encode, decode, Nat.mod_one]
  | succ k ih =>
    have hmod : n % (256 * 256 ^ k) = n % 256 + 256 * (n / 256 % 256 ^ k) := Nat.mod_mul
    rw [pow_succ, mul_comm, hmod, ← ih]
    simp [encode, decode]

theorem decode_lt (bs : List UInt8) : decode bs < 256 ^ bs.length := by
  induction bs with
  | nil => simp [decode]
  | cons b bs ih =>
    have hb : b.toNat < 256 := b.toNat_lt
    rw [decode, List.length_cons, pow_succ]
    omega

theorem decode_append (as bs : List UInt8) :
    decode (as ++ bs) = decode as + 256 ^ as.length * decode bs := by
  induction as with
  | nil => simp [decode]
  | cons a as ih =>
    rw [List.cons_append, decode, decode, ih, List.length_cons, pow_succ]
    ring

theorem encode_decode (bs : List UInt8) : encode bs.length (decode bs) = bs := by
  induction bs with
  | nil => rfl
  | cons b bs ih =>
    have hb : b.toNat < 256 := b.toNat_lt
    have hlow : UInt8.ofNat (decode (b :: bs)) = b := by
      apply UInt8.toNat_inj.mp
      rw [decode, UInt8.toNat_ofNat']
      omega
    have hrest : decode (b :: bs) / 256 = decode bs := by
      rw [decode]
      omega
    rw [List.length_cons, encode, hlow, hrest, ih]

/-- The loop that writes a word, byte by byte. -/
def ofUInt64 (n : UInt64) : List UInt8 :=
  (List.range 8).map fun i => ((n >>> UInt64.ofNat (i * 8)) &&& 0xFF).toUInt8

/-- The loop that reads a word from the first eight bytes. -/
def toUInt64 (b : List UInt8) : UInt64 :=
  (List.range 8).foldl (fun n i => n ||| (b.getD i 0).toUInt64 <<< UInt64.ofNat (i * 8)) 0

@[simp] theorem length_ofUInt64 (n : UInt64) : (ofUInt64 n).length = 8 := by
  simp [ofUInt64]

theorem encode_eq_map (k n : ℕ) :
    encode k n = (List.range k).map fun i => UInt8.ofNat (n / 256 ^ i) := by
  induction k generalizing n with
  | zero => rfl
  | succ k ih =>
    rw [encode, ih, List.range_succ_eq_map, List.map_cons, List.map_map]
    congr 1
    · simp
    · apply List.map_congr_left
      intro i _
      simp [pow_succ, Nat.div_div_eq_div_mul, mul_comm]

theorem ofUInt64_eq_encode (n : UInt64) : ofUInt64 n = encode 8 n.toNat := by
  rw [encode_eq_map]
  apply List.map_congr_left
  intro i hi
  have hi : i * 8 < 64 := by
    have := List.mem_range.mp hi
    omega
  have hpow : (256 : ℕ) ^ i = 2 ^ (i * 8) := by rw [mul_comm, pow_mul]; norm_num
  have hand (v : ℕ) : v &&& 255 = v % 256 := Nat.and_two_pow_sub_one_eq_mod v 8
  apply UInt8.toNat_inj.mp
  rw [UInt8.toNat_ofNat', UInt64.toNat_toUInt8, UInt64.toNat_and, UInt64.toNat_shiftRight,
    UInt64.toNat_ofNat', Nat.mod_eq_of_lt (show i * 8 < 2 ^ 64 by omega), Nat.mod_eq_of_lt hi,
    Nat.shiftRight_eq_div_pow, hpow]
  show (_ &&& 255) % 256 = _ % 256
  rw [hand, Nat.mod_mod]

theorem toNat_readLoop (b : List UInt8) {k : ℕ} (hk : k ≤ 8) (hb : k ≤ b.length) :
    ((List.range k).foldl
      (fun n i => n ||| (b.getD i 0).toUInt64 <<< UInt64.ofNat (i * 8)) (0 : UInt64)).toNat =
        decode (b.take k) := by
  induction k with
  | zero => rfl
  | succ k ih =>
    have hlow := ih (by omega) (by omega)
    have hlt : decode (b.take k) < 256 ^ k := by
      simpa [List.length_take, Nat.min_eq_left (show k ≤ b.length by omega)] using
        decode_lt (b.take k)
    have htake : b.take (k + 1) = b.take k ++ [b.getD k 0] := by
      rw [List.take_add_one]
      simp [List.getElem?_eq_getElem (show k < b.length by omega)]
    have hlen : (b.take k).length = k := by
      rw [List.length_take]
      omega
    have hpow : (256 : ℕ) ^ k = 2 ^ (k * 8) := by rw [mul_comm, pow_mul]; norm_num
    have hbyte : (b.getD k 0).toNat < 256 := (b.getD k 0).toNat_lt
    have hroom : (b.getD k 0).toNat * 2 ^ (k * 8) < 2 ^ 64 := by
      calc (b.getD k 0).toNat * 2 ^ (k * 8) < 256 * 2 ^ (k * 8) :=
            Nat.mul_lt_mul_of_pos_right hbyte (Nat.two_pow_pos _)
        _ = 2 ^ (8 + k * 8) := by rw [pow_add]; norm_num
        _ ≤ 2 ^ 64 := Nat.pow_le_pow_right (by omega) (by omega)
    rw [List.range_succ, List.foldl_append, List.foldl_cons, List.foldl_nil, UInt64.toNat_or,
      hlow, UInt64.toNat_shiftLeft, UInt8.toNat_toUInt64, UInt64.toNat_ofNat',
      Nat.mod_eq_of_lt (show k * 8 < 2 ^ 64 by omega), Nat.mod_eq_of_lt (show k * 8 < 64 by omega),
      Nat.shiftLeft_eq, Nat.mod_eq_of_lt hroom, htake, decode_append, hlen]
    -- the new byte lies above the bits that were read before it
    rw [hpow] at hlt ⊢
    rw [Nat.or_comm, ← Nat.shiftLeft_eq, ← Nat.shiftLeft_add_eq_or_of_lt hlt, Nat.shiftLeft_eq]
    simp only [decode, mul_zero, add_zero]
    ring

theorem toUInt64_ofUInt64_append (n : UInt64) (rest : List UInt8) :
    toUInt64 (ofUInt64 n ++ rest) = n := by
  apply UInt64.toNat_inj.mp
  have hlen : 8 ≤ (ofUInt64 n ++ rest).length := by simp
  have htake : (ofUInt64 n ++ rest).take 8 = ofUInt64 n := by
    rw [List.take_append_of_le_length (by simp), List.take_of_length_le (by simp)]
  rw [toUInt64, toNat_readLoop _ le_rfl hlen, htake, ofUInt64_eq_encode, decode_encode]
  exact Nat.mod_eq_of_lt n.toNat_lt

theorem ofUInt64_injective : Function.Injective ofUInt64 := by
  intro m n h
  have hm := toUInt64_ofUInt64_append m []
  rw [h, toUInt64_ofUInt64_append] at hm
  exact hm.symm

theorem toNat_highLow (high low : UInt8) :
    (high.toUInt16 <<< 8 ||| low.toUInt16).toNat = 256 * high.toNat + low.toNat := by
  have hhigh : high.toNat < 256 := high.toNat_lt
  have hlow : low.toNat < 2 ^ 8 := low.toNat_lt
  rw [UInt16.toNat_or, UInt16.toNat_shiftLeft, UInt8.toNat_toUInt16, UInt8.toNat_toUInt16]
  show high.toNat <<< 8 % 2 ^ 16 ||| low.toNat = _
  rw [Nat.mod_eq_of_lt (by rw [Nat.shiftLeft_eq]; omega), ← Nat.shiftLeft_add_eq_or_of_lt hlow,
    Nat.shiftLeft_eq]
  ring

theorem toNat_high (n : UInt16) : (n >>> 8).toUInt8.toNat = n.toNat / 256 := by
  have hn : n.toNat < 65536 := n.toNat_lt
  rw [UInt16.toNat_toUInt8, UInt16.toNat_shiftRight]
  show n.toNat >>> 8 % 256 = _
  rw [Nat.shiftRight_eq_div_pow]
  exact Nat.mod_eq_of_lt (by omega)

theorem toNat_low (n : UInt16) : (n &&& 0xFF).toUInt8.toNat = n.toNat % 256 := by
  rw [UInt16.toNat_toUInt8, UInt16.toNat_and]
  show (n.toNat &&& 255) % 256 = _
  rw [show n.toNat &&& 255 = n.toNat % 256 from Nat.and_two_pow_sub_one_eq_mod n.toNat 8,
    Nat.mod_mod]

end Endian
