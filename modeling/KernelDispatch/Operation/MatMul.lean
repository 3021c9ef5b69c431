import KernelDispatch.Operation.Access
import KernelDispatch.Operation.Product

/-
  Matrix products, with an optional bias for each column. Both kernels run on planar operands. The
  tiled kernel takes extents that are multiples of its tile only; the reference kernel takes every
  shape and prefers planar operands to any others.
-/

namespace KernelDispatch

structure MatMul where
  /-- Whether the weights are stored by columns. -/
  transposed : Bool
  deriving DecidableEq, Repr

namespace MatMul

instance : Operation MatMul where
  key := "matmul"
  describe op := "MatMulAttrs \x7b transpose_b: " ++ toString op.transposed ++ " \x7d"

/-! ## Support -/

/-- The axes of the weights that hold the rows and the columns of the right factor. -/
def weightAxes (op : MatMul) : Nat × Nat := if op.transposed then (1, 0) else (0, 1)

/-- A bias need not be there; else it is a vector with an element for each column. -/
def biasFits (ds : Descriptors) : Bool :=
  (ds.get? .bias).all fun d =>
    d.rank == 1 && Extent.bothAgree (d.shape.axis? 0) (ds.axis? (.destination 0) 1)

/-- The operands are matrices of `f32` elements whose extents can agree. -/
def fits (op : MatMul) (ds : Descriptors) : Bool :=
  ([Operand.source 0, .weights, .destination 0].all fun p => (ds.get? p).any (·.rank == 2)) &&
    Extent.bothAgree (ds.axis? (.source 0) 1) (ds.axis? .weights op.weightAxes.1) &&
    Extent.bothAgree (ds.axis? (.source 0) 0) (ds.axis? (.destination 0) 0) &&
    Extent.bothAgree (ds.axis? .weights op.weightAxes.2) (ds.axis? (.destination 0) 1) &&
    biasFits ds && ds.allSingle

/-- Whether all extents are multiples of the tile; `ifUnknown` answers for unknown ones. -/
def extentsTile (ifUnknown : Bool) (d : Descriptor) : Bool :=
  d.shape.extents.all fun e => match e with
    | .known n => n % ProductSizes.tile == 0
    | .unknown => ifUnknown

/-- Whether the extents of all operands but the bias are multiples of the tile. -/
def allTile (ifUnknown : Bool) (ds : Descriptors) : Bool :=
  ds.all fun p d => p == .bias || extentsTile ifUnknown d

def supportsAny (op : MatMul) (ds : Descriptors) (c : Constraints) : Bool :=
  op.fits ds && c.admits ds

/-- Unknown extents are left to the bound shapes. -/
def supportsTiled (op : MatMul) (ds : Descriptors) (c : Constraints) : Bool :=
  op.fits ds && allTile true ds && ds.allInLayout .planar && c.admits ds

/-! ## Running -/

/-- Checks that the bias has an element for each column. -/
def checkBias (b : Bindings) (columns : Nat) : Except Misfit Unit :=
  match b.get? .bias with
  | none => .ok ()
  | some m => do
    let sizes ← m.desc.concreteSizes
    if sizes = [columns] then .ok () else .error (.biasSize columns)

/-- The sizes of the product that the bound operands stand for. -/
def resolve (op : MatMul) (b : Bindings) : Except Misfit ProductSizes := do
  let left ← b.sizes (.source 0)
  let weights ← b.sizes .weights
  let target ← b.sizes (.destination 0)
  match left, weights, target with
  | [rows, inner], [first, second], [_, _] =>
    let (weightInner, columns) := if op.transposed then (second, first) else (first, second)
    if inner ≠ weightInner then throw (.contraction inner weightInner)
    if target ≠ [rows, columns] then throw (.productSizes rows columns target)
    checkBias b columns
    return { rows, inner, columns }
  | _, _, _ => .error .notMatrix

/-- The operands are planar and their sizes fit the schedule. -/
def accepts (op : MatMul) (schedule : Product.Schedule) (b : Bindings) :
    Except MemoryError Bool :=
  .ok (b.descriptors.allInLayout .planar &&
    match op.resolve b with
    | .ok sizes => schedule == .byRow || sizes.tiles
    | .error _ => false)

/-- The elements of the bias, if one is bound. -/
def biasElements (b : Bindings) (s : Store) : Except Misfit (Option (Array Single)) :=
  match b.get? .bias with
  | none => .ok none
  | some _ => (b.elements s .bias).map some

/-- Overwrites the destination with the product. By tiles this is done in bands, and it ends the
    program if the length of a band wraps around to zero. -/
def run (arith : Arithmetic) (op : MatMul) (name : String) (schedule : Product.Schedule)
    (b : Bindings) (s : Store) : Except Misfit Store := do
  let sizes ← op.resolve b
  let left ← b.elements s (.source 0)
  let weights ← b.elements s .weights
  let bias ← biasElements b s
  let target ← b.requireSingle (.destination 0)
  if sizes.columns ≠ 0 ∧ schedule = .byTile ∧ !sizes.tiles then
    throw (.untiled name ProductSizes.tile)
  if schedule = .byTile ∧ sizes.wraps then throw .emptyBands
  let product : Product := { sizes with transposed := op.transposed, left, weights, bias }
  s.fill target (product.computed arith schedule)

/-! ## Kernels -/

def runner {σ : Type} (arith : Arithmetic) (op : MatMul) (name : String)
    (schedule : Product.Schedule) : Runner σ :=
  .onStore (op.accepts schedule) (op.run arith name schedule)

def tiledName : String := "matmul_tiled"

def referenceName : String := "matmul_ref"

def tiledKernel {σ : Type} (arith : Arithmetic) : Kernel MatMul σ where
  name := tiledName
  origin := .jit
  supports op ds c := .answer (op.supportsTiled ds c)
  acceptsShapes b := .answer (allTile false b.descriptors)
  build op _ s := (.ok (op.runner arith tiledName .byTile), s)

def referenceKernel {σ : Type} (arith : Arithmetic) : Kernel MatMul σ where
  name := referenceName
  origin := .reference
  shapeAgnostic := true
  supports op ds c := .answer (op.supportsAny ds c)
  preferred _ ds := .answer (ds.relaid? fun _ _ => .planar)
  build op _ s := (.ok (op.runner arith referenceName .byRow), s)

def kernels {σ : Type} (arith : Arithmetic) : List (Kernel MatMul σ) :=
  [tiledKernel arith, referenceKernel arith]

end MatMul

end KernelDispatch
