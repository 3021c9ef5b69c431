import KernelDispatch.Descriptor

/-
  Restrictions on the layouts of operands. An operand may be given a list of layouts; one without
  a list, or with an empty one, takes every layout.
-/

namespace KernelDispatch

/-- The layouts listed for each operand, in the order in which they were first allowed. -/
structure Constraints where
  layouts : OperandMap (List Layout) := ∅
  deriving DecidableEq

namespace Constraints

instance : EmptyCollection Constraints := ⟨{}⟩

def isEmpty (c : Constraints) : Bool := c.layouts.isEmpty

/-- The layouts listed for an operand. -/
def allowed? (c : Constraints) (p : Operand) : Option (List Layout) := c.layouts.get? p

/-- Appends the layouts that are not listed yet. -/
def extend (listed : List Layout) : List Layout → List Layout
  | [] => listed
  | l :: ls => extend (if l ∈ listed then listed else listed ++ [l]) ls

/-- Lists further layouts for an operand. -/
def allow (c : Constraints) (p : Operand) (ls : List Layout) : Constraints :=
  ⟨c.layouts.insert p (extend ((c.allowed? p).getD []) ls)⟩

/-- Whether an operand may have a layout. -/
def allows (c : Constraints) (p : Operand) (l : Layout) : Bool :=
  match c.allowed? p with
  | none => true
  | some ls => ls.isEmpty || ls.contains l

/-- Whether every operand has a layout that it may have. -/
def admits (c : Constraints) (ds : Descriptors) : Bool := ds.all fun p d => c.allows p d.layout

end Constraints

end KernelDispatch
