import Redesk.Machine.Buffer

/-! Rows of equal width in a buffer where they begin at a fixed distance, with or without padding
between them, and their copy without padding. -/
namespace Raster

variable {β : Type*} {src rows : List β} {stride width height : ℕ}

/-- The first rows of a buffer one after another; a row that reaches past the end has no value. -/
def pack (src : List β) (stride width : ℕ) : ℕ → Option (List β)
  | 0 => some []
  | height + 1 => do
    let rows ← pack src stride width height
    let row ← Buffer.slice src (height * stride) width
    return rows ++ row

theorem pack_succ : pack src stride width (height + 1) = some rows ↔
    ∃ above, pack src stride width height = some above ∧ height * stride + width ≤ src.length ∧
      rows = above ++ (src.drop (height * stride)).take width := by
  rw [pack]
  cases habove : pack src stride width height with
  | none => simp
  | some above =>
    by_cases hin : height * stride + width ≤ src.length
    · simp [Buffer.slice, hin, eq_comm]
    · simp [Buffer.slice, hin]

theorem length_pack (hp : pack src stride width height = some rows) :
    rows.length = height * width := by
  induction height generalizing rows with
  | zero =>
    cases hp
    simp
  | succ height ih =>
    obtain ⟨above, habove, hin, rfl⟩ := pack_succ.mp hp
    rw [List.length_append, ih habove, List.length_take, List.length_drop, Nat.succ_mul]
    omega

/-- All rows are in the buffer when the last one is. -/
theorem exists_pack (hs : width ≤ stride) (hin : height * stride ≤ src.length) :
    ∃ rows, pack src stride width height = some rows := by
  induction height with
  | zero => exact ⟨[], rfl⟩
  | succ height ih =>
    rw [Nat.succ_mul] at hin
    obtain ⟨above, habove⟩ := ih (by omega)
    exact ⟨_, pack_succ.mpr ⟨above, habove, by omega, rfl⟩⟩

/-- What stands in a row is where it stood in the buffer. -/
theorem getElem?_pack (hp : pack src stride width height = some rows) {x y : ℕ} (hx : x < width)
    (hy : y < height) : rows[y * width + x]? = src[y * stride + x]? := by
  induction height generalizing rows with
  | zero => exact absurd hy y.not_lt_zero
  | succ height ih =>
    obtain ⟨above, habove, hin, rfl⟩ := pack_succ.mp hp
    have hlen := length_pack habove
    rcases Nat.lt_succ_iff_lt_or_eq.mp hy with hy | rfl
    · have hlt : y * width + x < above.length := by
        have hrow : (y + 1) * width ≤ height * width := Nat.mul_le_mul_right width hy
        rw [Nat.succ_mul] at hrow
        omega
      rw [List.getElem?_append_left hlt, ih habove hy]
    · rw [← hlen, List.getElem?_append_right (by omega), Nat.add_sub_cancel_left,
        List.getElem?_take_of_lt hx, List.getElem?_drop]

/-- Without padding the rows are what the buffer begins with. -/
theorem pack_self (hin : height * width ≤ src.length) :
    pack src width width height = some (src.take (height * width)) := by
  induction height with
  | zero => simp [pack]
  | succ height ih =>
    rw [Nat.succ_mul] at hin
    refine pack_succ.mpr ⟨_, ih (by omega), hin, ?_⟩
    rw [Nat.succ_mul, List.take_add]

end Raster
