import KernelDispatch.Kernel
import KernelDispatch.Operation.Misfit
import KernelDispatch.Single

/-
  What kernels ask of their operands: before running, whether descriptors can fit; when they run,
  the elements of the `f32` memory bound to one. A runner made here touches memories only.
-/

namespace KernelDispatch

/-! ## Descriptors -/

namespace Descriptors

def allSingle (ds : Descriptors) : Bool := ds.all fun _ d => d.elementType == .f32

/-- The extent of an axis of an operand, absent when the operand is not there or its rank is too
    small. -/
def axis? (ds : Descriptors) (p : Operand) (i : Nat) : Option Extent :=
  (ds.get? p).bind fun d => d.shape.axis? i

/-- The size of an axis of an operand, absent when there is none or it is unknown. -/
def size? (ds : Descriptors) (p : Operand) (i : Nat) : Option Nat :=
  (ds.axis? p i).bind Extent.value?

end Descriptors

/-- Whether there are two extents, and they can be equal once both are known. -/
def Extent.bothAgree : Option Extent → Option Extent → Bool
  | some e, some e' => e.agrees e'
  | _, _ => false

/-- The sizes of a shape that has to be known. -/
def Descriptor.concreteSizes (d : Descriptor) : Except Misfit (List Nat) :=
  match d.shape.sizes? with
  | some sizes => .ok sizes
  | none => .error (.notStatic d)

/-! ## Bound memories -/

namespace Bindings

/-- The `f32` memory that has to be bound to an operand. -/
def requireSingle (b : Bindings) (p : Operand) : Except Misfit Memory :=
  match b.get? p with
  | none => .error (.unbound p)
  | some m =>
    if m.desc.elementType = .f32 then .ok m else .error (.elementType p m.desc.elementType)

/-- The sizes of the `f32` memory bound to an operand. -/
def sizes (b : Bindings) (p : Operand) : Except Misfit (List Nat) :=
  match b.requireSingle p with
  | .error e => .error e
  | .ok m => m.desc.concreteSizes

/-- The elements of the `f32` memory bound to an operand, in physical order. -/
def elements (b : Bindings) (s : Store) (p : Operand) : Except Misfit (Array Single) :=
  match b.requireSingle p with
  | .error e => .error e
  | .ok m => (s.readPhysical m).mapError .memory

end Bindings

/-- Overwrites all elements of a memory in physical order. -/
def Store.fill (s : Store) (m : Memory) (xs : Array Single) : Except Misfit Store :=
  (s.writePhysical m xs).mapError .memory

/-! ## Kernels and runners -/

/-- An answer that depends on the question alone. -/
def Ask.answer {σ α : Type} (a : α) : Ask σ α := fun s => (a, s)

/-- A runner whose answer to an update depends on the bound memories alone, and whose run changes
    nothing but the bytes of memories. -/
def Runner.onStore {σ : Type} (accepts : Bindings → Except MemoryError Bool)
    (run : Bindings → Store → Except Misfit Store) : Runner σ where
  update b s := ((accepts b).mapError .memory, s)
  execute b s :=
    match run b s.store with
    | .ok store => (.ok (), { s with store })
    | .error e => (.error e.error, s)

end KernelDispatch
