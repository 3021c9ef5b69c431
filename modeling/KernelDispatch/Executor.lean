import KernelDispatch.Dispatcher

/-
  Executors: what runs an operation on bound operands, either one built kernel or a dispatcher
  over several candidates.
-/

namespace KernelDispatch

inductive Executor (α σ : Type) where
  | single (built : Instance σ)
  | deferred (dispatcher : Dispatcher α σ)

namespace Executor

variable {α σ : Type}

/-- The name of the kernel that does the work. -/
def name : Executor α σ → String
  | single built => built.name
  | deferred dispatcher => dispatcher.name

/-- Prepares for the bound operands; the answer says whether they can be run. -/
def update (memory : Bindings) (w : World σ) :
    Executor α σ → Except Error Bool × Executor α σ × World σ
  | single built =>
    let (result, built, w) := built.update memory w
    (result, single built, w)
  | deferred dispatcher =>
    let (result, dispatcher, w) := dispatcher.update memory w
    (result, deferred dispatcher, w)

def execute [Operation α] (memory : Bindings) (w : World σ) :
    Executor α σ → Except Error Unit × Executor α σ × World σ
  | single built =>
    let (result, w) := built.execute memory w
    (result, single built, w)
  | deferred dispatcher =>
    let (result, dispatcher, w) := dispatcher.execute memory w
    (result, deferred dispatcher, w)

end Executor

end KernelDispatch
