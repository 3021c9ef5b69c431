import KernelDispatch.Operation.Access
import KernelDispatch.Single.Decimal

/-
  Elementwise operations. All operands share one layout, so the kernels walk the buffers in
  physical order, padding included. One kernel takes channels in whole blocks of eight only; the
  other one takes any shared layout.
-/

namespace KernelDispatch

/-- What is done to each element, or to each pair of elements. -/
inductive Elementwise where
  /-- Zero in place of what is not above zero. -/
  | relu
  | add
  | mul
  | scale (factor : Single)
  deriving DecidableEq, Repr

namespace Elementwise

/-- The number of sources. -/
def arity : Elementwise → Nat
  | relu | scale _ => 1
  | add | mul => 2

/-- The result for one element of each source. An operation with one source takes no notice of
    the second element. -/
def apply (arith : Arithmetic) : Elementwise → Single → Single → Single
  | relu, x, _ => arith.max x .zero
  | add, x, y => arith.add x y
  | mul, x, y => arith.mul x y
  | scale factor, x, _ => arith.mul x factor

/-- The sources, in order. -/
def sources (op : Elementwise) : List Operand :=
  [Operand.source 0, Operand.source 1].take op.arity

def text : Elementwise → String
  | relu => "Relu"
  | add => "Add"
  | mul => "Mul"
  | scale factor => "Scale(" ++ Single.text factor ++ ")"

instance : Operation Elementwise where
  key := "eltwise"
  describe op := "EltwiseAttrs \x7b op: " ++ op.text ++ " \x7d"

/-! ## Support -/

/-- The destination is bound, so is each source, with the same rank, and all elements are
    `f32`. -/
def fits (op : Elementwise) (ds : Descriptors) : Bool :=
  match ds.get? (.destination 0) with
  | none => false
  | some target =>
    (op.sources.all fun p => (ds.get? p).any fun d => d.rank == target.rank) && ds.allSingle

/-- The number of channels in a block. -/
def block : Nat := 8

def supportsBlocked (op : Elementwise) (ds : Descriptors) (c : Constraints) : Bool :=
  op.fits ds && ds.allInLayout (.blocked block) &&
    (ds.size? (.source 0) 1).all (· % block == 0) && c.admits ds

def supportsShared (op : Elementwise) (ds : Descriptors) (c : Constraints) : Bool :=
  op.fits ds && ((ds.get? (.destination 0)).any fun d => ds.allInLayout d.layout) && c.admits ds

/-- Whether the channels of the bound operands fill whole blocks. -/
def fillsBlocks (b : Bindings) : Bool :=
  (b.descriptors.size? (.source 0) 1).any (· % block == 0)

/-! ## Running -/

/-- The sources have the shape and the layout of the destination. -/
def accepts (op : Elementwise) (b : Bindings) : Except MemoryError Bool := do
  let target ← b.require (.destination 0)
  return op.sources.all fun p => (b.get? p).any fun m =>
    m.desc.shape == target.desc.shape && m.desc.layout == target.desc.layout

/-- The elements of the second source; those of the first one when there is no second. -/
def secondElements (op : Elementwise) (b : Bindings) (s : Store) (first : Array Single) :
    Except Misfit (Array Single) :=
  if op.arity = 2 then b.elements s (.source 1) else .ok first

/-- Overwrites the destination, element by element in physical order. -/
def run (arith : Arithmetic) (op : Elementwise) (b : Bindings) (s : Store) :
    Except Misfit Store := do
  let target ← b.requireSingle (.destination 0)
  let xs ← b.elements s (.source 0)
  let ys ← op.secondElements b s xs
  if ys.size ≠ xs.size then throw .sourceSizes
  s.fill target (Array.zipWith (op.apply arith) xs ys)

def runner {σ : Type} (arith : Arithmetic) (op : Elementwise) : Runner σ :=
  .onStore op.accepts (op.run arith)

/-! ## Kernels -/

/-- The kernel for channels in whole blocks. -/
def blockedKernel {σ : Type} (arith : Arithmetic) : Kernel Elementwise σ where
  name := "eltwise_blocked"
  origin := .jit
  supports op ds c := .answer (op.supportsBlocked ds c)
  acceptsShapes b := .answer (fillsBlocks b)
  build op _ s := (.ok (op.runner arith), s)

/-- The kernel for any shared layout. -/
def sharedKernel {σ : Type} (arith : Arithmetic) : Kernel Elementwise σ where
  name := "eltwise_any_layout"
  origin := .reference
  shapeAgnostic := true
  supports op ds c := .answer (op.supportsShared ds c)
  build op _ s := (.ok (op.runner arith), s)

def kernels {σ : Type} (arith : Arithmetic) : List (Kernel Elementwise σ) :=
  [blockedKernel arith, sharedKernel arith]

end Elementwise

end KernelDispatch
