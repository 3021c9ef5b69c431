import KernelDispatch.Scratch

/-
  Holders of lent memories. A memory may be held under several names; when it is given back under
  one of them while another still holds it, its buffer does not return to the pool.
-/

namespace KernelDispatch

/-- A scratch pool together with everything that it has lent out, by the names of the holders. -/
structure Holders where
  store : Store := {}
  scratch : Scratch := {}
  held : List (String × Loan) := []

namespace Holders

/-- What is held under a name. -/
def loan? (h : Holders) (name : String) : Option Loan := h.held.lookup name

/-- What is held under other names. -/
def others (h : Holders) (name : String) : List (String × Loan) :=
  h.held.filter fun e => e.1 != name

/-- Whether a memory is held under another name. -/
def isShared (h : Holders) (name : String) (loan : Loan) : Bool :=
  (h.others name).any fun e => e.2.memory.cell == loan.memory.cell

/-- Lends a zeroed memory for `d` to a name, which lets go of what it held. -/
def acquire (h : Holders) (name : String) (d : Descriptor) : Except MemoryError (Loan × Holders) :=
  match h.scratch.acquire h.store d with
  | .ok (loan, scratch, store) => .ok (loan, ⟨store, scratch, (name, loan) :: h.others name⟩)
  | .error e => .error e

/-- Lets a further name hold the memory held under a name. -/
def share (h : Holders) (name further : String) : Option Holders :=
  (h.loan? name).map fun loan => { h with held := (further, loan) :: h.others further }

/-- Gives back the memory held under a name. -/
def release (h : Holders) (name : String) : Option Holders :=
  (h.loan? name).map fun loan =>
    { h with
      scratch := h.scratch.release loan (h.isShared name loan)
      held := h.others name }

end Holders

end KernelDispatch
