import KernelDispatch.Kernel

/-
  Selecting the candidates for a configuration from the kernels of an operation.
  The order of registration is the order of preference. A prescribed name leaves only the kernel
  of that name, and nothing behind the first shape-agnostic candidate is considered.
-/

namespace KernelDispatch

variable {α σ : Type}

/-- The kernels that support a configuration, asked in order. -/
def supporting (attrs : α) (descs : Descriptors) (constraints : Constraints)
    (priority : Option String) : List (Kernel α σ) → Ask σ (List (Kernel α σ))
  | [], s => ([], s)
  | k :: ks, s =>
    if priority.any (· != k.name) then supporting attrs descs constraints priority ks s
    else match k.supports attrs descs constraints s with
      | (false, s) => supporting attrs descs constraints priority ks s
      | (true, s) =>
        if k.shapeAgnostic then ([k], s)
        else
          let (rest, s) := supporting attrs descs constraints priority ks s
          (k :: rest, s)

/-- The candidates for a configuration; there has to be one. -/
def candidates [Operation α] (kernels : List (Kernel α σ)) (attrs : α) (descs : Descriptors)
    (constraints : Constraints) (priority : Option String) :
    Attempt σ Error (List (Kernel α σ)) := fun s =>
  match supporting attrs descs constraints priority kernels s with
  | ([], s) => (.error (.noCandidate (Operation.key α) priority descs), s)
  | (found, s) => (.ok found, s)

end KernelDispatch
