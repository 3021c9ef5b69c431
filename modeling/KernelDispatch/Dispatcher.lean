import KernelDispatch.Context
import KernelDispatch.Instance
import KernelDispatch.Recency

/-
  Choosing among several candidates each time the operands change.
  A dispatcher takes the first candidate that supports the concrete operands, accepts their shapes
  and accepts them again once it is built. Each candidate is built at most once for a choice of
  element types and layouts, and the choices made for the latest signatures are remembered, so
  that going back to one of them asks no predicate again.
-/

namespace KernelDispatch

/-- What two calls must share to be interchangeable for selection: the descriptors of all bound
    operands. -/
abbrev Signature := Descriptors

/-- The element types and layouts that a candidate is built for; absent when it runs on the
    caller's memories. -/
abbrev Route := Option (OperandMap (ElementType × Layout))

/-- The route to a kernel with the given preference. -/
def Route.of (preferred : Option Descriptors) : Route :=
  preferred.map fun target => target.map fun _ d => (d.elementType, d.layout)

/-- A candidate that has been built. -/
structure Slot (σ : Type) where
  route : Route
  built : Instance σ

/-- A remembered decision. -/
structure Choice where
  index : Nat
  route : Route
  deriving DecidableEq

structure Dispatcher (α σ : Type) where
  attrs : α
  constraints : Constraints
  candidates : List (Kernel α σ)
  /-- What has been built of each candidate. -/
  slots : List (Option (Slot σ))
  /-- The decisions for the latest signatures. -/
  decisions : Recency Signature Choice
  /-- The signature in force and the index of the candidate that takes it. -/
  resolved : Option (Signature × Nat)

namespace Dispatcher

variable {α σ : Type}

/-- A dispatcher that has not chosen yet. -/
def ofCandidates (candidates : List (Kernel α σ)) (attrs : α) (constraints : Constraints)
    (context : Context) : Dispatcher α σ where
  attrs
  constraints
  candidates
  slots := candidates.map fun _ => none
  decisions := { limit := context.cacheSize }
  resolved := none

/-- The index of the candidate in force. -/
def resolvedIndex (d : Dispatcher α σ) : Option Nat := d.resolved.map (·.2)

/-- The name of the candidate in force. -/
def name (d : Dispatcher α σ) : String :=
  ((d.resolvedIndex.bind fun i => d.candidates[i]?).map Kernel.name).getD "undefined"

/-- What has been built of a candidate. -/
def slot? (d : Dispatcher α σ) (index : Nat) : Option (Slot σ) := d.slots[index]?.join

def setSlot (d : Dispatcher α σ) (index : Nat) (slot : Slot σ) : Dispatcher α σ :=
  { d with slots := d.slots.set index (some slot) }

/-- Offers the operands to a candidate that has been built. -/
def offer (d : Dispatcher α σ) (index : Nat) (slot : Slot σ) (memory : Bindings) (w : World σ) :
    Except Error Bool × Dispatcher α σ × World σ :=
  let (result, built, w) := slot.built.update memory w
  (result, d.setSlot index { slot with built }, w)

/-- Offers the operands to a candidate, after building it if it has not been built for this
    route. Its preference may be known already. -/
def trySelect (d : Dispatcher α σ) (index : Nat) (k : Kernel α σ) (route : Route)
    (preferred : Option (Option Descriptors)) (memory : Bindings) (w : World σ) :
    Except Error Bool × Dispatcher α σ × World σ :=
  match (d.slot? index).filter fun slot => slot.route = route with
  | some slot => d.offer index slot memory w
  | none =>
    let (preferred, w) := match preferred with
      | some known => (known, w)
      | none => w.run (k.preferred d.attrs memory.descriptors)
    match Instance.build k d.attrs memory.descriptors preferred memory w with
    | (.error e, w) => (.error e, d, w)
    | (.ok built, w) => d.offer index { route := Route.of preferred, built } memory w

/-- Whether the predicates of a candidate let the operands pass. -/
def passes (d : Dispatcher α σ) (k : Kernel α σ) (memory : Bindings) (w : World σ) :
    Bool × World σ :=
  match w.run (k.supports d.attrs memory.descriptors d.constraints) with
  | (false, w) => (false, w)
  | (true, w) => w.run (k.acceptsShapes memory)

/-- Tries the given candidates in order and remembers the first one that takes the operands. -/
def walk (memory : Bindings) : List (Kernel α σ × Nat) → Dispatcher α σ → World σ →
    Except Error Bool × Dispatcher α σ × World σ
  | [], d, w => (.ok false, d, w)
  | (k, index) :: rest, d, w =>
    match d.passes k memory w with
    | (false, w) => walk memory rest d w
    | (true, w) =>
      let (preferred, w) := w.run (k.preferred d.attrs memory.descriptors)
      match d.trySelect index k (Route.of preferred) (some preferred) memory w with
      | (.error e, d, w) => (.error e, d, w)
      | (.ok false, d, w) => walk memory rest d w
      | (.ok true, d, w) =>
        (.ok true,
          { d with
            decisions := d.decisions.store memory.descriptors
              { index, route := Route.of preferred }
            resolved := some (memory.descriptors, index) }, w)

/-- Tries all candidates in order of preference. -/
def walkAll (d : Dispatcher α σ) (memory : Bindings) (w : World σ) :
    Except Error Bool × Dispatcher α σ × World σ :=
  walk memory d.candidates.zipIdx d w

/-- Chooses a candidate: the one remembered for this signature, unless it refuses now, or else the
    first one that takes the operands. -/
def resolve (d : Dispatcher α σ) (memory : Bindings) (w : World σ) :
    Except Error Bool × Dispatcher α σ × World σ :=
  let d := { d with resolved := none }
  match d.decisions.use? memory.descriptors with
  | none => d.walkAll memory w
  | some (choice, decisions) =>
    let d := { d with decisions }
    match d.candidates[choice.index]? with
    | none => d.walkAll memory w
    | some k =>
      match d.trySelect choice.index k choice.route none memory w with
      | (.error e, d, w) => (.error e, d, w)
      | (.ok true, d, w) =>
        (.ok true, { d with resolved := some (memory.descriptors, choice.index) }, w)
      | (.ok false, d, w) =>
        { d with decisions := d.decisions.forget memory.descriptors }.walkAll memory w

/-- The candidate in force, if it is in force for these operands. -/
def current? (d : Dispatcher α σ) (memory : Bindings) : Option (Nat × Slot σ) :=
  match d.resolved with
  | none => none
  | some (signature, index) =>
    if signature = memory.descriptors then (d.slot? index).map fun slot => (index, slot)
    else none

/-- Makes sure that a candidate is in force for the bound operands; the answer says whether one
    takes them. -/
def update (d : Dispatcher α σ) (memory : Bindings) (w : World σ) :
    Except Error Bool × Dispatcher α σ × World σ :=
  match d.current? memory with
  | some (index, slot) => d.offer index slot memory w
  | none => d.resolve memory w

/-- The candidate in force. -/
def selected? (d : Dispatcher α σ) : Option (Slot σ) := d.resolvedIndex.bind d.slot?

/-- Updates to the bound operands and runs the candidate in force. -/
def execute [Operation α] (d : Dispatcher α σ) (memory : Bindings) (w : World σ) :
    Except Error Unit × Dispatcher α σ × World σ :=
  match d.update memory w with
  | (.error e, d, w) => (.error e, d, w)
  | (.ok false, d, w) => (.error (.noneApplies (Operation.key α) memory.descriptors), d, w)
  | (.ok true, d, w) =>
    match d.selected? with
    | none => (.error (.noneApplies (Operation.key α) memory.descriptors), d, w)
    | some slot =>
      let (result, w) := slot.built.execute memory w
      (result, d, w)

end Dispatcher

end KernelDispatch
