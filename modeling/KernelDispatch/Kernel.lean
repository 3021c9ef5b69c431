import KernelDispatch.Bindings
import KernelDispatch.Constraints
import KernelDispatch.Text.Quoted

/-
  Kernels: what each one says about itself, and how it is built and run.
  A kernel answers whether it supports a configuration, whether it would rather have its operands
  in other layouts, and whether concrete shapes suit it; then it builds a runner. All of these act
  on a session, so a kernel may read and write memories and keep state of its own, and nothing
  here assumes that its answers are the same every time.
-/

namespace KernelDispatch

/-- What a kernel can reach: the bytes of the memories, and the state of its surroundings. -/
structure Session (σ : Type) where
  store : Store
  ambient : σ

/-- A question that is always answered. -/
abbrev Ask (σ α : Type) := Session σ → α × Session σ

/-- A step that may fail; what it did before failing stays done. -/
abbrev Attempt (σ ε α : Type) := Session σ → Except ε α × Session σ

/-- Where a kernel comes from. -/
inductive Origin where
  | reference
  | jit
  | acl
  | dnnl
  | shl
  | other
  deriving DecidableEq, Repr

namespace Origin

def text : Origin → String
  | reference => "ref"
  | jit => "jit"
  | acl => "acl"
  | dnnl => "dnnl"
  | shl => "shl"
  | other => "other"

def title : Origin → String
  | reference => "Reference"
  | jit => "Jit"
  | acl => "Acl"
  | dnnl => "Dnnl"
  | shl => "Shl"
  | other => "Other"

end Origin

/-- The attributes of an operation: the key that settings and messages use, and a text for each
    value. -/
class Operation (α : Type) where
  key : String
  describe : α → String

/-- A kernel that has been built. -/
structure Runner (σ : Type) where
  /-- Prepares for the bound operands; the answer says whether it can run on them. -/
  update : Bindings → Attempt σ Error Bool
  execute : Bindings → Attempt σ Error Unit

/-- A kernel for operations with attributes in `α`. What is not said is the most permissive: it
    supports every configuration, takes every layout and accepts every shape. -/
structure Kernel (α σ : Type) where
  /-- The name by which a policy can prescribe the kernel. -/
  name : String
  origin : Origin := .other
  /-- Whether support depends on element types and layouts alone, never on extents. -/
  shapeAgnostic : Bool := false
  supports : α → Descriptors → Constraints → Ask σ Bool := fun _ _ _ s => (true, s)
  /-- The descriptors the kernel would rather be given, if they are others. -/
  preferred : α → Descriptors → Ask σ (Option Descriptors) := fun _ _ s => (none, s)
  acceptsShapes : Bindings → Ask σ Bool := fun _ s => (true, s)
  build : α → Bindings → Attempt σ Failure (Runner σ)

/-- A text for a kernel, without its predicates. -/
def Kernel.describe {α σ : Type} (k : Kernel α σ) : String :=
  "Implementation \x7b name: " ++ Text.quoted k.name ++ ", kind: " ++ k.origin.title ++
    ", shape_agnostic: " ++ toString k.shapeAgnostic ++ ", .. \x7d"

end KernelDispatch
