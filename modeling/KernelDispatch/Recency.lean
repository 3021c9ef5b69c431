/-
  A bounded memory of the entries used most recently. Looking an entry up counts as a use, and
  storing one beyond the bound forgets the entry that was not used for longest.
  It stands for the cache that the program takes from a library, of which it calls `get`, `put` and
  `pop`. What is assumed is what is documented of them: `get` that finds its key makes the entry the
  latest (`use?`); `put` makes its entry the latest, in place of the one it finds at the key, or else
  of the least recent one once the capacity is reached (`store`); `pop` takes one entry away and
  leaves the order of the others (`forget`).
-/

namespace KernelDispatch

/-- At most `limit` entries, latest use first. -/
structure Recency (κ α : Type) where
  limit : Nat
  entries : List (κ × α) := []

namespace Recency

variable {κ α : Type} [DecidableEq κ]

/-- The entries without the one at `k`. -/
def without (k : κ) (es : List (κ × α)) : List (κ × α) := es.filter fun e => e.1 ≠ k

/-- The value stored at `k`, which becomes the latest one used. -/
def use? (r : Recency κ α) (k : κ) : Option (α × Recency κ α) :=
  (r.entries.find? fun e => e.1 = k).map fun e =>
    (e.2, { r with entries := e :: without k r.entries })

/-- Stores a value at `k` as the latest one used. -/
def store (r : Recency κ α) (k : κ) (v : α) : Recency κ α :=
  { r with entries := ((k, v) :: without k r.entries).take r.limit }

def forget (r : Recency κ α) (k : κ) : Recency κ α := { r with entries := without k r.entries }

end Recency

end KernelDispatch
