/-
  Positions in an index space, given by one coordinate per axis.
  `Index.next?` advances the last coordinate and carries to the left; `Index.visited` follows it
  from the origin and so walks the whole space in row-major order.
-/

namespace KernelDispatch

/-- One coordinate per axis. -/
abbrev Index := List Nat

namespace Index

/-- The position of an index when the last axis varies fastest, starting from `acc`. -/
def positionFrom : Nat → List Nat → Index → Nat
  | acc, n :: sizes, i :: index => positionFrom (acc * n + i) sizes index
  | acc, _, _ => acc

/-- The row-major position of an index. -/
def position (sizes : List Nat) (index : Index) : Nat := positionFrom 0 sizes index

/-- The index lies inside the space. -/
def InBounds : List Nat → Index → Prop
  | n :: sizes, i :: index => i < n ∧ InBounds sizes index
  | [], [] => True
  | _, _ => False

/-- The first index of a space. -/
def origin (sizes : List Nat) : Index := sizes.map fun _ => 0

/-- The index after `index`: the last coordinate that can grow does, and those behind it return
    to zero. Absent after the last index. -/
def next? : List Nat → Index → Option Index
  | n :: sizes, i :: index =>
    match next? sizes index with
    | some index' => some (i :: index')
    | none => if i + 1 < n then some ((i + 1) :: origin sizes) else none
  | _, _ => none

/-- At most `steps` indices, from `index` on. -/
def visitFrom (sizes : List Nat) : Nat → Index → List Index
  | 0, _ => []
  | steps + 1, index =>
    index :: match next? sizes index with
      | some index' => visitFrom sizes steps index'
      | none => []

/-- The number of indices of a space. -/
def volume (sizes : List Nat) : Nat := sizes.foldr (· * ·) 1

/-- All indices of a space, in row-major order. An axis without positions leaves none. -/
def visited (sizes : List Nat) : List Index :=
  if sizes.any (· == 0) then [] else visitFrom sizes (volume sizes) (origin sizes)

end Index

end KernelDispatch
