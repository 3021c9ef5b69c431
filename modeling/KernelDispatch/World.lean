import KernelDispatch.Kernel
import KernelDispatch.Scratch

/-
  The state that executors share: a session, and the scratch pool, which kernels cannot reach.
  `World.withStaged` runs a step on operands some of which are replaced by lent memories, and
  gives the memories back however the step ends.
-/

namespace KernelDispatch

structure World (σ : Type) extends Session σ where
  scratch : Scratch

namespace World

variable {σ β : Type}

/-- Runs a step of a kernel. -/
def run (w : World σ) (step : Session σ → β × Session σ) : β × World σ :=
  let (b, s) := step w.toSession
  (b, { w with toSession := s })

/-- Lends a zeroed memory for `d`. -/
def lend (w : World σ) (d : Descriptor) : Except MemoryError (Loan × World σ) :=
  match w.scratch.acquire w.store d with
  | .ok (loan, scratch, store) => .ok (loan, { w with scratch, store })
  | .error e => .error e

/-- Takes lent memories back, in the order in which they were lent. -/
def giveBack (w : World σ) (loans : List Loan) : World σ :=
  { w with scratch := w.scratch.releaseAll loans }

/-- Lends a memory for each entry, in order, and binds it to its operand in place of the memory that
    has to be bound there. The loans so far are returned in any case. -/
def stageFrom (memory : Bindings) :
    List (Operand × Descriptor) → Bindings → List Loan → World σ →
      Except MemoryError Bindings × List Loan × World σ
  | [], staged, loans, w => (.ok staged, loans, w)
  | (p, d) :: rest, staged, loans, w =>
    match memory.require p with
    | .error e => (.error e, loans, w)
    | .ok _ =>
      match w.lend d with
      | .error e => (.error e, loans, w)
      | .ok (loan, w) => stageFrom memory rest (staged.insert p loan.memory) (loans ++ [loan]) w

/-- Runs `body` on the operands with lent memories for the given descriptors in place. -/
def withStaged (w : World σ) (memory : Bindings) (wanted : Descriptors)
    (body : Bindings → World σ → Except Error β × World σ) : Except Error β × World σ :=
  match stageFrom memory wanted.entries memory [] w with
  | (.error e, loans, w) => (.error (.memory e), w.giveBack loans)
  | (.ok staged, loans, w) =>
    let (result, w) := body staged w
    (result, w.giveBack loans)

/-- Converts the memories of one set into those of another on the given operands, in order. -/
def convertOperands (source target : Bindings) :
    List Operand → World σ → Except Error Unit × World σ
  | [], w => (.ok (), w)
  | p :: ps, w =>
    match source.require p, target.require p with
    | .ok m, .ok m' =>
      match w.store.convert m m' with
      | .ok store => convertOperands source target ps { w with store }
      | .error e => (.error (.conversion p e), w)
    | .error e, _ => (.error (.memory e), w)
    | _, .error e => (.error (.memory e), w)

end World

end KernelDispatch
