import KernelDispatch.Executor
import KernelDispatch.Selection

/-
  Factories: the candidates for one node, selected once, and the executors made from them.
-/

namespace KernelDispatch

structure Factory (α σ : Type) where
  attrs : α
  context : Context
  constraints : Constraints
  candidates : List (Kernel α σ)

namespace Factory

variable {α σ : Type}

/-- The name that is in force: the given one, or else the one that the context prescribes for the
    operation. -/
def priorityIn (α : Type) [Operation α] (context : Context) (given : Option String) :
    Option String :=
  given.or (context.overrides.priorityFor (Operation.key α))

/-- A text for a factory: the operation, its attributes and the names of the candidates. -/
def describe [Operation α] (f : Factory α σ) : String :=
  "ExecutorFactory \x7b op: " ++ Text.quoted (Operation.key α) ++ ", attrs: " ++
    Operation.describe f.attrs ++ ", candidates: " ++
    Text.quotedList (f.candidates.map Kernel.name) ++ " \x7d"

/-- Selects the candidates for a node. -/
def select [Operation α] (kernels : List (Kernel α σ)) (attrs : α) (context : Context)
    (descs : Descriptors) (constraints : Constraints) (priority : Option String) :
    Attempt σ Error (Factory α σ) := fun s =>
  match KernelDispatch.candidates kernels attrs descs constraints
      (priorityIn α context priority) s with
  | (.ok candidates, s) => (.ok { attrs, context, constraints, candidates }, s)
  | (.error e, s) => (.error e, s)

/-- The descriptors that each of some candidates would like its operands allocated with. -/
def properFrom (attrs : α) (descs : Descriptors) : List (Kernel α σ) → Ask σ (List Descriptors)
  | [], s => ([], s)
  | k :: ks, s =>
    let (preferred, s) := k.preferred attrs descs s
    let (rest, s) := properFrom attrs descs ks s
    (preferred.getD descs :: rest, s)

/-- The descriptors that each candidate would like its operands allocated with. -/
def properDescriptors (f : Factory α σ) (descs : Descriptors) : Ask σ (List Descriptors) :=
  properFrom f.attrs descs f.candidates

/-- The executor for bound operands. A single candidate is built at once; several are left to a
    dispatcher. -/
def make (f : Factory α σ) (memory : Bindings) (w : World σ) :
    Except Error (Executor α σ) × World σ :=
  match f.candidates with
  | [k] =>
    let (preferred, w) := w.run (k.preferred f.attrs memory.descriptors)
    match Instance.build k f.attrs memory.descriptors preferred memory w with
    | (.ok built, w) => (.ok (.single built), w)
    | (.error e, w) => (.error e, w)
  | candidates =>
    (.ok (.deferred (.ofCandidates candidates f.attrs f.constraints f.context)), w)

end Factory

end KernelDispatch
