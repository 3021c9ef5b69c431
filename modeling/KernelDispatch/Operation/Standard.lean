import KernelDispatch.Catalogue
import KernelDispatch.Operation.Elementwise
import KernelDispatch.Operation.MatMul
import KernelDispatch.Operation.Pooling

/-
  The standard kernels, in the order of their registration: specialised ones before those that
  take more operands. They keep no state of their own.
-/

namespace KernelDispatch

inductive StandardOperation where
  | elementwise
  | matMul
  | pooling
  deriving DecidableEq, Repr

namespace StandardOperation

@[reducible] def Attributes : StandardOperation → Type
  | elementwise => Elementwise
  | matMul => MatMul
  | pooling => Pooling

instance : (i : StandardOperation) → Operation i.Attributes
  | elementwise => inferInstanceAs (Operation Elementwise)
  | matMul => inferInstanceAs (Operation MatMul)
  | pooling => inferInstanceAs (Operation Pooling)

instance : Operations StandardOperation where
  decidableEq := inferInstance
  Entry i := Kernel i.Attributes Unit
  key i := Operation.key i.Attributes
  name k := k.name

/-- All standard kernels, with the operation of each. -/
def kernels (arith : Arithmetic) :
    List ((i : StandardOperation) × Operations.Entry i) :=
  (Elementwise.kernels arith).map (⟨elementwise, ·⟩) ++
    (MatMul.kernels arith).map (⟨matMul, ·⟩) ++
    (Pooling.kernels arith).map (⟨pooling, ·⟩)

/-- The catalogue of the standard kernels and no others. -/
def catalogue (arith : Arithmetic) : Catalogue StandardOperation :=
  ((∅ : Catalogue StandardOperation).registerAll (kernels arith)).2

end StandardOperation

end KernelDispatch
