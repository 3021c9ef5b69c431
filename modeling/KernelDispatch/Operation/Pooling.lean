import KernelDispatch.Operation.Access

/-
  Pooling of images without padding: each element of the output is the largest element, or the
  average, of a window of the input. The one kernel runs on buffers with the channels last and
  prefers such operands to any others.
-/

namespace KernelDispatch

/-- A number for the vertical direction and one for the horizontal direction. -/
structure Area where
  height : Nat
  width : Nat
  deriving DecidableEq, Repr

/-- The number for a direction; the vertical one comes first. -/
def Area.along (a : Area) (axis : Fin 2) : Nat := if axis = 0 then a.height else a.width

inductive PoolKind where
  | max
  | average
  deriving DecidableEq, Repr

def PoolKind.text : PoolKind → String
  | max => "Max"
  | average => "Avg"

structure Pooling where
  kind : PoolKind
  window : Area
  stride : Area
  deriving DecidableEq, Repr

/-- The sizes of the images before and after a pooling. -/
structure PoolGeometry where
  batch : Nat
  channels : Nat
  input : Area
  output : Area
  deriving DecidableEq, Repr

namespace PoolGeometry

/-- The number of elements in a line of an output image. -/
def lineLength (g : PoolGeometry) : Nat := g.output.width * g.channels

/-- The number of lines of all output images. -/
def lines (g : PoolGeometry) : Nat := g.batch * g.output.height

/-- The position of an input element in a buffer with the channels last. -/
def position (g : PoolGeometry) (image line column channel : Nat) : Nat :=
  ((image * g.input.height + line) * g.input.width + column) * g.channels + channel

end PoolGeometry

namespace Pooling

instance : Operation Pooling where
  key := "pooling"
  describe op := "PoolingAttrs \x7b kind: " ++ op.kind.text ++ ", kernel: " ++
    Misfit.sizesText [op.window.height, op.window.width] ++ ", stride: " ++
    Misfit.sizesText [op.stride.height, op.stride.width] ++ " \x7d"

/-- The number of windows that fit into an input extent. -/
def outputExtent? (op : Pooling) (axis : Fin 2) (input : Nat) : Option Nat :=
  let window := op.window.along axis
  let stride := op.stride.along axis
  if window = 0 ∨ stride = 0 ∨ input < window then none else some ((input - window) / stride + 1)

/-! ## Support -/

/-- The windows fit into the input, and the output has an element for each of them, as far as the
    extents are known. -/
def axisFits (op : Pooling) (ds : Descriptors) (axis : Fin 2) : Bool :=
  match ds.axis? (.source 0) (axis.val + 2) with
  | some (.known input) => (op.outputExtent? axis input).any fun output =>
      Extent.bothAgree (some (.known output)) (ds.axis? (.destination 0) (axis.val + 2))
  | _ => true

def supports (op : Pooling) (ds : Descriptors) (c : Constraints) : Bool :=
  ([Operand.source 0, .destination 0].all fun p => (ds.get? p).any (·.rank == 4)) &&
    ds.size == 2 &&
    ([op.window.height, op.window.width, op.stride.height, op.stride.width].all (0 < ·)) &&
    op.axisFits ds 0 && op.axisFits ds 1 &&
    Extent.bothAgree (ds.axis? (.source 0) 0) (ds.axis? (.destination 0) 0) &&
    Extent.bothAgree (ds.axis? (.source 0) 1) (ds.axis? (.destination 0) 1) &&
    ds.allSingle && c.admits ds

/-! ## Windows -/

/-- The elements under a window, line by line. -/
def windowElements (op : Pooling) (g : PoolGeometry) (xs : Array Single)
    (image line column channel : Nat) : List Single :=
  (List.range op.window.height).flatMap fun i => (List.range op.window.width).map fun j =>
    xs.getD (g.position image (line * op.stride.height + i) (column * op.stride.width + j) channel)
      .zero

/-- What becomes of the elements under a window. The average starts its sum at negative zero, so
    that a window of negative zeros keeps its sign. -/
def pool (arith : Arithmetic) (op : Pooling) (values : List Single) : Single :=
  match op.kind with
  | .max => values.foldl arith.max .negativeInfinity
  | .average => arith.div (values.foldl arith.add .negativeZero)
      (arith.ofCount (op.window.height * op.window.width))

/-- One line of an output image, the channels of each element together. -/
def outputLine (arith : Arithmetic) (op : Pooling) (g : PoolGeometry) (xs : Array Single)
    (image line : Nat) : List Single :=
  (List.range g.lineLength).map fun i =>
    op.pool arith (op.windowElements g xs image line (i / g.channels) (i % g.channels))

/-- All output images, line by line. Lines without elements are not visited. -/
def computed (arith : Arithmetic) (op : Pooling) (g : PoolGeometry) (xs : Array Single) :
    Array Single :=
  if g.lineLength = 0 then #[]
  else ((List.range g.lines).flatMap fun r =>
    op.outputLine arith g xs (r / g.output.height) (r % g.output.height)).toArray

/-! ## Running -/

def kernelName : String := "pool_nhwc"

/-- The number of windows along an axis that has to hold at least one. -/
def outputExtent (op : Pooling) (axis : Fin 2) (input : Nat) : Except Misfit Nat :=
  match op.outputExtent? axis input with
  | some n => .ok n
  | none => .error (.window input)

/-- The geometry that the bound operands stand for. -/
def geometry (op : Pooling) (b : Bindings) : Except Misfit PoolGeometry := do
  let source ← b.requireSingle (.source 0)
  let target ← b.requireSingle (.destination 0)
  if source.desc.layout ≠ .channelsLast ∨ target.desc.layout ≠ .channelsLast then
    throw (.channelsNotLast kernelName)
  let sizes ← source.desc.concreteSizes
  let targetSizes ← target.desc.concreteSizes
  match sizes, targetSizes with
  | [batch, channels, height, width], [_, _, _, _] =>
    let outputHeight ← op.outputExtent 0 height
    let outputWidth ← op.outputExtent 1 width
    let expected := [batch, channels, outputHeight, outputWidth]
    if targetSizes ≠ expected then throw (.pooledSizes expected targetSizes)
    return { batch, channels, input := ⟨height, width⟩, output := ⟨outputHeight, outputWidth⟩ }
  | _, _ => .error .notImages

def accepts (op : Pooling) (b : Bindings) : Except MemoryError Bool := .ok (op.geometry b).isOk

/-- Overwrites the destination with the pooled source. -/
def run (arith : Arithmetic) (op : Pooling) (b : Bindings) (s : Store) : Except Misfit Store := do
  let g ← op.geometry b
  let xs ← b.elements s (.source 0)
  let target ← b.requireSingle (.destination 0)
  s.fill target (op.computed arith g xs)

/-! ## Kernel -/

def kernel {σ : Type} (arith : Arithmetic) : Kernel Pooling σ where
  name := kernelName
  origin := .reference
  shapeAgnostic := true
  supports op ds c := .answer (op.supports ds c)
  preferred _ ds := .answer (ds.relaid? fun _ _ => .channelsLast)
  build op _ s := (.ok (.onStore op.accepts (op.run arith)), s)

def kernels {σ : Type} (arith : Arithmetic) : List (Kernel Pooling σ) := [kernel arith]

end Pooling

end KernelDispatch
