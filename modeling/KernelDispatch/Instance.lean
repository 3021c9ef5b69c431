import KernelDispatch.Adapter

/-
  A kernel that has been built for an operation: it runs on the caller's memories, or behind an
  adapter when it asked for other descriptors.
-/

namespace KernelDispatch

inductive Instance (σ : Type) where
  | direct (name : String) (runner : Runner σ)
  | adapted (adapter : Adapter σ)

namespace Instance

variable {α σ : Type}

/-- Builds a kernel for the given descriptors, behind an adapter if it prefers others. -/
def build (k : Kernel α σ) (attrs : α) (descs : Descriptors) (preferred : Option Descriptors)
    (memory : Bindings) (w : World σ) : Except Error (Instance σ) × World σ :=
  match preferred with
  | some target =>
    match Adapter.build k attrs descs target memory w with
    | (.ok adapter, w) => (.ok (.adapted adapter), w)
    | (.error e, w) => (.error e, w)
  | none =>
    match w.run (k.build attrs memory) with
    | (.ok runner, w) => (.ok (.direct k.name runner), w)
    | (.error e, w) => (.error (.construction k.name e), w)

def name : Instance σ → String
  | direct name _ => name
  | adapted adapter => adapter.name

/-- Prepares for the bound operands; the answer says whether the kernel can run on them. -/
def update (memory : Bindings) (w : World σ) :
    Instance σ → Except Error Bool × Instance σ × World σ
  | direct name runner =>
    let (result, w) := w.run (runner.update memory)
    (result, direct name runner, w)
  | adapted adapter =>
    let (result, adapter, w) := adapter.update memory w
    (result, adapted adapter, w)

def execute (memory : Bindings) (w : World σ) : Instance σ → Except Error Unit × World σ
  | direct _ runner => w.run (runner.execute memory)
  | adapted adapter => adapter.execute memory w

end Instance

end KernelDispatch
