import KernelDispatch.Store

/-
  The scratch pool: buffers for converted operands, kept for reuse after a call.
  A buffer is a cell of the store together with its capacity, the size it was first made with. A
  request takes the first pooled buffer that is large enough; the last buffer moves into the
  hole. Every request yields zeros.
  A request that finds no such buffer makes a new one, for which there is always room: `acquire`
  fails only where `Descriptor.requiredBytes` does, as `Store.create`.
-/

namespace KernelDispatch

/-- What becomes of a buffer that is given back. -/
inductive ReusePolicy where
  | recycle
  | release
  deriving DecidableEq, Repr

def ReusePolicy.text : ReusePolicy → String
  | recycle => "recycle"
  | release => "release"

/-- A cell kept for reuse. -/
structure Buffer where
  cell : Cell
  capacity : Nat
  deriving DecidableEq, Repr

/-- The pool and its counters. -/
structure Scratch where
  policy : ReusePolicy := .recycle
  pool : List Buffer := []
  allocations : Nat := 0
  reuses : Nat := 0
  deriving DecidableEq, Repr

/-- A memory lent out by the pool. -/
structure Loan where
  memory : Memory
  capacity : Nat
  deriving DecidableEq, Repr

namespace Scratch

/-- The pool holds at most this many buffers. -/
def poolLimit : Nat := 32

/-- Removes the buffer at a position; the last one takes its place. -/
def takeOut (pool : List Buffer) (i : Nat) : List Buffer :=
  match pool.getLast? with
  | some last => (pool.set i last).dropLast
  | none => []

/-- The first buffer that holds `size` bytes, and the pool without it. -/
def fitting? (pool : List Buffer) (size : Nat) : Option (Buffer × List Buffer) := do
  let i ← pool.findIdx? fun b => decide (size ≤ b.capacity)
  let b ← pool[i]?
  return (b, takeOut pool i)

/-- Lends a zeroed memory for `d`. -/
def acquire (sc : Scratch) (s : Store) (d : Descriptor) :
    Except MemoryError (Loan × Scratch × Store) :=
  match d.requiredBytes with
  | .error e => .error e
  | .ok size =>
    match fitting? sc.pool size with
    | some (b, pool) =>
      .ok (⟨⟨d, b.cell⟩, b.capacity⟩, { sc with pool, reuses := sc.reuses + 1 },
        s.put b.cell (Bytes.zeros size))
    | none =>
      let (cell, s) := s.push (Bytes.zeros size)
      .ok (⟨⟨d, cell⟩, size⟩, { sc with allocations := sc.allocations + 1 }, s)

/-- Takes a memory back. Its buffer is kept if the policy says so, if nobody else holds the memory
    and if there is room. -/
def release (sc : Scratch) (loan : Loan) (shared : Bool) : Scratch :=
  match sc.policy with
  | .release => sc
  | .recycle =>
    if shared || decide (poolLimit ≤ sc.pool.length) then sc
    else { sc with pool := sc.pool ++ [⟨loan.memory.cell, loan.capacity⟩] }

/-- Takes back memories that nobody else holds, in the order in which they were lent. -/
def releaseAll (sc : Scratch) (loans : List Loan) : Scratch :=
  loans.foldl (fun sc loan => sc.release loan false) sc

end Scratch

end KernelDispatch
