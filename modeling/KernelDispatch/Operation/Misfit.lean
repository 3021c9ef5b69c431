import KernelDispatch.Error

/-
  Why bound operands do not fit a kernel that is run on them, by cause, with the wording of each.
  A run fails on all of them but one, on which the program ends.
-/

namespace KernelDispatch

inductive Misfit where
  /-- No memory is bound to the operand. -/
  | unbound (operand : Operand)
  /-- The elements are not `f32`. -/
  | elementType (operand : Operand) (found : ElementType)
  /-- The extents are unknown. -/
  | notStatic (desc : Descriptor)
  /-- A memory was refused when it was read or written. -/
  | memory (cause : MemoryError)
  /-- The sources of an elementwise operation have different sizes. -/
  | sourceSizes
  /-- An operand of a matrix product is no matrix. -/
  | notMatrix
  /-- The rows of one factor and the columns of the other differ in length. -/
  | contraction (inner weightInner : Nat)
  /-- The destination does not have the sizes of the product. -/
  | productSizes (rows columns : Nat) (found : List Nat)
  | biasSize (columns : Nat)
  /-- The sizes are no multiples of the tile. -/
  | untiled (kernel : String) (tile : Nat)
  /-- A buffer was to be split into bands without elements. -/
  | emptyBands
  /-- A pooling operand has its channels elsewhere. -/
  | channelsNotLast (kernel : String)
  /-- An operand of a pooling is no batch of images. -/
  | notImages
  /-- The window is empty, does not move, or is larger than the image. -/
  | window (extent : Nat)
  /-- The destination does not have the sizes of the pooled images. -/
  | pooledSizes (expected found : List Nat)
  deriving DecidableEq, Repr

namespace Misfit

/-- Sizes between brackets, with a comma and a space between them. -/
def sizesText (sizes : List Nat) : String := "[" ++ ", ".intercalate (sizes.map toString) ++ "]"

def message : Misfit → String
  | unbound operand => "operand " ++ operand.text ++ " is not bound"
  | elementType operand found => "operand " ++ operand.text ++ " must be f32, got " ++ found.name
  | notStatic desc => "operand " ++ desc.text ++ " has no concrete shape"
  | memory cause => cause.message
  | sourceSizes => "eltwise operand size mismatch"
  | notMatrix => "matmul expects rank-2 operands"
  | contraction inner weightInner =>
    "matmul contraction mismatch: " ++ toString inner ++ " vs " ++ toString weightInner
  | productSizes rows columns found =>
    "matmul output must be " ++ sizesText [rows, columns] ++ ", got " ++ sizesText found
  | biasSize columns => "matmul bias must have " ++ toString columns ++ " elements"
  | untiled kernel tile => kernel ++ " needs extents divisible by " ++ toString tile
  | emptyBands => "chunk_size must not be zero"
  | channelsNotLast kernel => kernel ++ " runs on channels_last operands only"
  | notImages => "pooling expects rank-4 operands"
  | window extent => "pooling window does not fit input extent " ++ toString extent
  | pooledSizes expected found =>
    "pooling output must be " ++ sizesText expected ++ ", got " ++ sizesText found

def failure (e : Misfit) : Failure := { message := e.message }

/-- Whether a caller is told of the misfit. A buffer cannot be split into empty bands: the program
    ends when it is to be. -/
def isReported : Misfit → Bool
  | emptyBands => false
  | _ => true

/-- What a run ends with that meets the misfit. -/
def error (e : Misfit) : Error := if e.isReported then .execution e.failure else .ended e.failure

@[simp] theorem isReported_error (e : Misfit) : e.error.isReported = e.isReported := by
  unfold error
  cases h : e.isReported <;> rfl

end Misfit

end KernelDispatch
