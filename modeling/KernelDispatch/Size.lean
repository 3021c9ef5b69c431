/-
  Sizes are natural numbers below `2 ^ 64`.
  A product is formed from the left and is absent as soon as one step leaves the range, even when
  a later factor is zero.
-/

namespace KernelDispatch

/-- Sizes are smaller than this bound. -/
def sizeLimit : Nat := Nat.pow 2 64

/-- The product of two sizes, absent when it is out of range. -/
def times? (a b : Nat) : Option Nat :=
  if a * b < sizeLimit then some (a * b) else none

/-- Multiplies `acc` by each size in turn. -/
def productFrom? : Nat → List Nat → Option Nat
  | acc, [] => some acc
  | acc, x :: xs => (times? acc x).bind fun p => productFrom? p xs

/-- The product of a list of sizes, taken from the left. -/
def product? (xs : List Nat) : Option Nat := productFrom? 1 xs

theorem times?_eq_some {a b c : Nat} : times? a b = some c ↔ a * b = c ∧ c < sizeLimit := by
  unfold times?
  split
  · simp only [Option.some.injEq]
    constructor
    · rintro rfl; exact ⟨rfl, ‹_›⟩
    · exact fun h => h.1
  · simp only [reduceCtorEq, false_iff]
    rintro ⟨rfl, h⟩
    exact absurd h ‹_›

end KernelDispatch
