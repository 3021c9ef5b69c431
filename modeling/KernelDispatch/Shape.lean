import KernelDispatch.Size

/-
  Logical shapes. An extent is known, or it stays unknown until memory is bound.
  A shape with unknown extents stands for every shape it admits.
-/

namespace KernelDispatch

/-- The extent of one axis. -/
inductive Extent where
  | known (n : Nat)
  | unknown
  deriving DecidableEq, Repr

namespace Extent

def value? : Extent → Option Nat
  | known n => some n
  | unknown => none

/-- Whether an axis of this extent may turn out to have `n` positions. -/
def admits : Extent → Nat → Bool
  | known m, n => m == n
  | unknown, _ => true

/-- Whether every value that `e` stands for is admitted. -/
def covers (pattern : Extent) : Extent → Bool
  | known n => pattern.admits n
  | unknown => pattern == unknown

/-- Whether two extents can be equal once both are known. -/
def agrees : Extent → Extent → Bool
  | known m, known n => m == n
  | _, _ => true

def text : Extent → String
  | known n => toString n
  | unknown => "?"

end Extent

/-- The extents of a tensor in logical order. -/
structure Shape where
  extents : List Extent
  deriving DecidableEq, Repr

namespace Shape

/-- The shape with the given known extents. -/
def ofSizes (sizes : List Nat) : Shape := ⟨sizes.map .known⟩

def rank (s : Shape) : Nat := s.extents.length

/-- The extent of an axis, absent when the rank is too small. -/
def axis? (s : Shape) (i : Nat) : Option Extent := s.extents[i]?

/-- The size of an axis, absent when it is unknown or out of range. -/
def size? (s : Shape) (i : Nat) : Option Nat := (s.axis? i).bind Extent.value?

def isStatic (s : Shape) : Bool := s.extents.all fun e => e != .unknown

/-- The sizes of all axes, absent as soon as one is unknown. -/
def sizes? (s : Shape) : Option (List Nat) := s.extents.mapM Extent.value?

/-- The number of logical elements, if every extent is known and the product is in range. -/
def elementCount? (s : Shape) : Option Nat := s.sizes?.bind product?

/-- Whether every shape that `s` stands for is one that `pattern` stands for. -/
def covers (pattern s : Shape) : Bool :=
  pattern.rank == s.rank && (pattern.extents.zip s.extents).all fun p => p.1.covers p.2

def text (s : Shape) : String := "[" ++ "x".intercalate (s.extents.map Extent.text) ++ "]"

end Shape

end KernelDispatch
