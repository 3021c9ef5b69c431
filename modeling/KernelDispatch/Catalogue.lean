import KernelDispatch.Kernel

/-
  The catalogue of kernels: one list per operation, in the order of registration. Operations are
  told apart by an index; two of them may share a key. Names are unique within an operation.
-/

namespace KernelDispatch

/-- Indices of operations, with the key of each and the type of its kernels. -/
class Operations (ι : Type) where
  decidableEq : DecidableEq ι
  Entry : ι → Type
  key : ι → String
  name : {i : ι} → Entry i → String

attribute [reducible, instance] Operations.decidableEq

/-- The registered kernels by operation, and the operations that have a list, latest first. -/
structure Catalogue (ι : Type) [Operations ι] where
  entries : (i : ι) → List (Operations.Entry i)
  opened : List ι

namespace Catalogue

variable {ι : Type} [Operations ι]

instance : EmptyCollection (Catalogue ι) := ⟨⟨fun _ => [], []⟩⟩

instance : Inhabited (Catalogue ι) := ⟨∅⟩

/-- The names registered for an operation. -/
def names (c : Catalogue ι) (i : ι) : List String := (c.entries i).map Operations.name

/-- Opens the list of an operation, if it has none yet. -/
def ensure (c : Catalogue ι) (i : ι) : Catalogue ι :=
  { c with opened := if i ∈ c.opened then c.opened else i :: c.opened }

/-- The catalogue with one more kernel for an operation, behind those it has. -/
def append (c : Catalogue ι) (i : ι) (k : Operations.Entry i) : Catalogue ι :=
  { c with entries := fun j => if h : i = j then c.entries j ++ [h ▸ k] else c.entries j }

/-- Registers a kernel, unless its name is taken. The list of the operation is opened before the
    names in it are looked at. -/
def register (c : Catalogue ι) (i : ι) (k : Operations.Entry i) :
    Except Error Unit × Catalogue ι :=
  let c := c.ensure i
  if Operations.name k ∈ c.names i then
    (.error (.duplicate (Operations.key i) (Operations.name k)), c)
  else (.ok (), c.append i k)

/-- Registers kernels in order, up to the first one whose name is taken. Those before it stay
    registered. -/
def registerAll (c : Catalogue ι) :
    List ((i : ι) × Operations.Entry i) → Except Error Unit × Catalogue ι
  | [] => (.ok (), c)
  | ⟨i, k⟩ :: rest =>
    match c.register i k with
    | (.ok (), c) => c.registerAll rest
    | (.error e, c) => (.error e, c)

/-- The key of each operation that has a list, in order. -/
def keys (c : Catalogue ι) : List String :=
  (c.opened.map Operations.key).mergeSort fun a b => decide (a ≤ b)

/-- A text for a catalogue: its keys. -/
def describe (c : Catalogue ι) : String :=
  "ImplementationRegistry \x7b keys: " ++ Text.quotedList c.keys ++ " \x7d"

end Catalogue

/-- The operations of two indices together. -/
instance {ι κ : Type} [Operations ι] [Operations κ] : Operations (ι ⊕ κ) where
  decidableEq := inferInstance
  Entry := Sum.elim Operations.Entry Operations.Entry
  key := Sum.elim Operations.key Operations.key
  name {i} k := match i, k with
    | .inl _, k => Operations.name k
    | .inr _, k => Operations.name k

end KernelDispatch
