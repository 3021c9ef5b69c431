import KernelDispatch.Shape.Index
import KernelDispatch.Size

/-
  Physical layouts. A shape is always given in logical order, channels on axis 1; the layout says
  where each logical index sits in a flat buffer. A blocked layout pads the channels up to a
  multiple of its block.
-/

namespace KernelDispatch

inductive Layout where
  /-- Row-major in logical order. -/
  | planar
  /-- The channel axis moved innermost. -/
  | channelsLast
  /-- The channel axis split into blocks, with the lanes of a block innermost. -/
  | blocked (block : Nat)
  deriving DecidableEq, Repr

namespace Layout

def text : Layout → String
  | planar => "planar"
  | channelsLast => "channels_last"
  | blocked block => "blocked" ++ toString block

/-- Whether tensors of this rank can be laid out so. -/
def fitsRank : Layout → Nat → Bool
  | planar, _ => true
  | channelsLast, rank => decide (3 ≤ rank)
  | blocked block, rank => decide (2 ≤ rank) && decide (0 < block)

/-- The number of blocks that hold `n` channels. -/
def blocksFor (n block : Nat) : Nat := (n + (block - 1)) / block

/-- The sizes of the buffer's own axes, padding included. -/
def physicalSizes : Layout → List Nat → List Nat
  | channelsLast, n :: c :: rest => n :: (rest ++ [c])
  | blocked block, n :: c :: rest => n :: blocksFor c block :: (rest ++ [block])
  | _, sizes => sizes

/-- The position of a logical index on the buffer's own axes. -/
def physicalIndex : Layout → Index → Index
  | channelsLast, i :: c :: rest => i :: (rest ++ [c])
  | blocked block, i :: c :: rest => i :: c / block :: (rest ++ [c % block])
  | _, index => index

/-- The number of elements in the buffer, padding included, if it is in range. -/
def elementCount? (l : Layout) (sizes : List Nat) : Option Nat := product? (l.physicalSizes sizes)

/-- Where a logical index sits in the buffer, counted in elements. -/
def offset : Layout → List Nat → Index → Nat
  | planar, sizes, index => Index.position sizes index
  | channelsLast, _ :: c :: sizes, i :: j :: index =>
    Index.positionFrom i sizes index * c + j
  | blocked block, _ :: c :: sizes, i :: j :: index =>
    Index.positionFrom (i * blocksFor c block + j / block) sizes index * block + j % block
  | _, _, _ => 0

/-- Whether the buffer holds logical elements only. -/
def isDense : Layout → List Nat → Bool
  | blocked block, _ :: c :: _ => c % block == 0
  | blocked _, _ => false
  | _, _ => true

end Layout

end KernelDispatch
