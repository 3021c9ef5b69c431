import KernelDispatch.World

/-
  Running a kernel on converted operands.
  An adapter knows the element type and layout that its kernel asked for on each operand. Operands
  that differ travel through lent memories: inputs are converted before the kernel runs, outputs
  afterwards, so callers see their own layouts only. What has to be converted is planned for one
  set of descriptors and planned again when an update brings others.
-/

namespace KernelDispatch

structure Adapter (σ : Type) where
  /-- The name of the kernel. -/
  name : String
  /-- The kernel; absent when some operand could not be staged when it was to be built. -/
  inner : Option (Runner σ)
  /-- What the kernel asked for on each operand. -/
  targets : OperandMap (ElementType × Layout)
  /-- The descriptors that the conversions are planned for. -/
  planned : Descriptors
  /-- The descriptor that each converted operand is converted to. -/
  conversions : Descriptors

namespace Adapter

variable {α σ : Type}

/-- Builds a kernel behind an adapter: on operands that are zeroed memories of the target's
    descriptors wherever these differ from `descs`. If one of them cannot be made, the kernel
    stays unbuilt. -/
def build (k : Kernel α σ) (attrs : α) (descs target : Descriptors) (memory : Bindings)
    (w : World σ) : Except Error (Adapter σ) × World σ :=
  let conversions := target.differingFrom descs
  let adapter (inner : Option (Runner σ)) : Adapter σ :=
    { name := k.name, inner, planned := descs, conversions
      targets := target.map fun _ d => (d.elementType, d.layout) }
  if conversions.all fun _ d => d.requiredBytes.isOk then
    w.withStaged memory conversions fun staged w =>
      match w.run (k.build attrs staged) with
      | (.ok runner, w) => (.ok (adapter (some runner)), w)
      | (.error e, w) => (.error (.construction k.name e), w)
  else (.ok (adapter none), w)

/-- What has to be converted for the given descriptors, and to what. -/
def plan (a : Adapter σ) (actual : Descriptors) : Descriptors :=
  actual.filterMap fun p d => (a.targets.get? p).bind fun (elementType, layout) =>
    let wanted := { d with elementType, layout }
    if wanted = d then none else some wanted

/-- Plans again when the descriptors are new. -/
def follow (a : Adapter σ) (actual : Descriptors) : Adapter σ :=
  if actual = a.planned then a
  else { a with conversions := a.plan actual, planned := actual }

/-- Checks conversions in the order of operands. -/
def checkFrom (memory : Bindings) : List (Operand × Descriptor) → Except Error Unit
  | [] => .ok ()
  | (p, d) :: rest =>
    match memory.require p with
    | .error e => .error (.memory e)
    | .ok m =>
      match m.desc.checkConversion d with
      | .error e => .error (.conversion p e)
      | .ok () => checkFrom memory rest

/-- The first reason why a planned conversion cannot be performed on the bound operands. -/
def check (a : Adapter σ) (memory : Bindings) : Except Error Unit :=
  checkFrom memory a.conversions.entries

/-- Prepares for the bound operands; they are refused when they cannot be converted. -/
def update (a : Adapter σ) (memory : Bindings) (w : World σ) :
    Except Error Bool × Adapter σ × World σ :=
  let a := a.follow memory.descriptors
  match a.check memory, a.inner with
  | .ok (), some runner =>
    let (result, w) := w.withStaged memory a.conversions fun staged w =>
      w.run (runner.update staged)
    (result, a, w)
  | _, _ => (.ok false, a, w)

/-- Converts the inputs, runs the kernel, and converts the outputs back. -/
def execute (a : Adapter σ) (memory : Bindings) (w : World σ) : Except Error Unit × World σ :=
  match a.check memory with
  | .error e => (.error e, w)
  | .ok () =>
    match a.inner with
    | none => (.error (.memory (.unstaged a.name)), w)
    | some runner =>
      w.withStaged memory a.conversions fun staged w =>
        match w.convertOperands memory staged (a.conversions.keys.filter Operand.isInput) with
        | (.error e, w) => (.error e, w)
        | (.ok (), w) =>
          match w.run (runner.execute staged) with
          | (.error e, w) => (.error e, w)
          | (.ok (), w) =>
            w.convertOperands staged memory (a.conversions.keys.filter Operand.isOutput)

end Adapter

end KernelDispatch
