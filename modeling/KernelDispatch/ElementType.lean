/-
  The scalar types an operand may hold.
-/

namespace KernelDispatch

inductive ElementType where
  | f32
  | f16
  | bf16
  | i32
  | u8
  deriving DecidableEq, Repr

namespace ElementType

/-- Bytes taken by one element. -/
def width : ElementType → Nat
  | f32 | i32 => 4
  | f16 | bf16 => 2
  | u8 => 1

def name : ElementType → String
  | f32 => "f32"
  | f16 => "f16"
  | bf16 => "bf16"
  | i32 => "i32"
  | u8 => "u8"

theorem width_pos (t : ElementType) : 0 < t.width := by cases t <;> decide

end ElementType

end KernelDispatch
