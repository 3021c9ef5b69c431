import KernelDispatch.Store

/-
  The memories bound to the operands of an operation.
-/

namespace KernelDispatch

/-- A memory for each bound operand. -/
abbrev Bindings := OperandMap Memory

namespace Bindings

/-- The descriptors of the bound memories. -/
def descriptors (b : Bindings) : Descriptors := b.map fun _ m => m.desc

/-- The memory of an operand that has to be bound. -/
def require (b : Bindings) (p : Operand) : Except MemoryError Memory :=
  match b.get? p with
  | some m => .ok m
  | none => .error (.unbound p)

theorem get?_descriptors (b : Bindings) (p : Operand) :
    b.descriptors.get? p = (b.get? p).map Memory.desc := OrderedMap.get?_map b _ p

end Bindings

end KernelDispatch
