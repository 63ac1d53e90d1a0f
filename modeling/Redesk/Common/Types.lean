import Mathlib

/-! Shared value types of every layer: error codes, `Status` and `Result`, and the two sides of a
pair. -/
namespace Redesk

abbrev Bytes := List UInt8

inductive ErrorCode where
  | ok | unsupported | permissionDenied | notFound | invalidArgument | timeout
  | connectionLost | accessLost | again | internal
  deriving DecidableEq, Repr

structure Status where
  code : ErrorCode := .ok
  message : String := ""
  deriving DecidableEq, Repr

def Status.ok (s : Status) : Bool := decide (s.code = .ok)

def Status.success : Status := {}

def Status.error (code : ErrorCode) (message : String) : Status := ⟨code, message⟩

structure Result (α : Type*) where
  status : Status
  value : α
  deriving DecidableEq, Repr

def Result.good {α : Type*} (value : α) : Result α := ⟨.success, value⟩

/-- A failed result carries the default value of its type. -/
def Result.fail {α : Type*} [Inhabited α] (code : ErrorCode) (message : String) : Result α :=
  ⟨.error code message, default⟩

/-- The two ends of a link. -/
inductive Side where
  | a | b
  deriving DecidableEq, Repr

def Side.other : Side → Side
  | .a => .b
  | .b => .a

@[simp] theorem Side.other_other (x : Side) : x.other.other = x := by cases x <;> rfl

theorem Side.other_ne (x : Side) : x.other ≠ x := by cases x <;> decide

theorem Side.eq_or_eq_other (x y : Side) : y = x ∨ y = x.other := by
  cases x <;> cases y <;> decide

end Redesk
