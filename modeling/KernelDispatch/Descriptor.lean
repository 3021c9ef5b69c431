import KernelDispatch.ElementType
import KernelDispatch.Layout
import KernelDispatch.Operand
import KernelDispatch.Shape

/-
  Descriptors of operands: element type, logical shape and physical layout, and the descriptors
  of all operands of an operation.
-/

namespace KernelDispatch

structure Descriptor where
  elementType : ElementType
  shape : Shape
  layout : Layout
  deriving DecidableEq, Repr

namespace Descriptor

def rank (d : Descriptor) : Nat := d.shape.rank

def isStatic (d : Descriptor) : Bool := d.shape.isStatic

/-- Whether the layout can take the rank of the shape. -/
def isWellFormed (d : Descriptor) : Bool := d.layout.fitsRank d.rank

/-- The number of elements in a buffer for `d`, padding included. -/
def elementCount? (d : Descriptor) : Option Nat :=
  d.shape.sizes?.bind fun sizes =>
    if d.isWellFormed then d.layout.elementCount? sizes else none

/-- The number of bytes in a buffer for `d`, padding included. -/
def byteSize? (d : Descriptor) : Option Nat :=
  d.elementCount?.bind fun n => times? n d.elementType.width

def text (d : Descriptor) : String := d.elementType.name ++ d.shape.text ++ "/" ++ d.layout.text

end Descriptor

/-- The descriptors of an operation's operands. -/
abbrev Descriptors := OperandMap Descriptor

namespace Descriptors

def text (ds : Descriptors) : String :=
  " ".intercalate (ds.entries.map fun e => e.1.text ++ ":" ++ e.2.text)

/-- Whether every operand is laid out as `l`. -/
def allInLayout (ds : Descriptors) (l : Layout) : Bool := ds.all fun _ d => d.layout == l

/-- The same operands, each in the layout that `layoutFor` names; absent when none would change. -/
def relaid? (ds : Descriptors) (layoutFor : Operand → Descriptor → Layout) : Option Descriptors :=
  if ds.all fun p d => layoutFor p d == d.layout then none
  else some (ds.map fun p d => { d with layout := layoutFor p d })

/-- The entries of `ds` for operands that have another descriptor in `actual`. -/
def differingFrom (ds actual : Descriptors) : Descriptors :=
  ds.filterMap fun p d => (actual.get? p).bind fun a => if a = d then none else some d

end Descriptors

end KernelDispatch
