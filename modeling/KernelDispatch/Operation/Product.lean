import KernelDispatch.Single
import KernelDispatch.Size

/-
  Products of matrices on flat buffers. Each element is a sum that starts at the bias, or at zero,
  and takes its terms in order. Two schedules compute the elements: row by row, or in square
  tiles whose sums advance together. A schedule is the list of its writes, in order.
-/

namespace KernelDispatch

/-- The sizes of a product of a `rows × inner` matrix and an `inner × columns` matrix. -/
structure ProductSizes where
  rows : Nat
  inner : Nat
  columns : Nat
  deriving DecidableEq, Repr

namespace ProductSizes

/-- The number of rows, and of columns, of a tile. -/
def tile : Nat := 4

/-- Whether all sizes are multiples of the tile. -/
def tiles (z : ProductSizes) : Bool :=
  z.rows % tile == 0 && z.inner % tile == 0 && z.columns % tile == 0

/-- The number of elements of the product. -/
def count (z : ProductSizes) : Nat := z.rows * z.columns

/-- The number of elements in a band of as many rows as a tile has. -/
def bandLength (z : ProductSizes) : Nat := tile * z.columns

/-- Whether there are columns and yet a machine word has zero for the length of a band: it holds
    numbers up to multiples of the bound on sizes. -/
def wraps (z : ProductSizes) : Bool := z.columns != 0 && z.bandLength % sizeLimit == 0

/-- The position of an element of the left factor. -/
def leftPosition (z : ProductSizes) (row k : Nat) : Nat := row * z.inner + k

/-- The position of an element of the right factor, which may be stored by columns. -/
def weightPosition (z : ProductSizes) (transposed : Bool) (k column : Nat) : Nat :=
  if transposed then column * z.inner + k else k * z.columns + column

end ProductSizes

/-- The operands of one product. -/
structure Product extends ProductSizes where
  /-- Whether the right factor is stored by columns. -/
  transposed : Bool
  left : Array Single
  weights : Array Single
  bias : Option (Array Single)

namespace Product

/-! ## Elements -/

/-- What the sums in a column start at. -/
def start (p : Product) (column : Nat) : Single :=
  match p.bias with
  | some bias => bias.getD column .zero
  | none => .zero

/-- Adds the `k`-th term to the sum of an element. -/
def accumulate (arith : Arithmetic) (p : Product) (row column : Nat) (sum : Single) (k : Nat) :
    Single :=
  arith.add sum (arith.mul (p.left.getD (p.leftPosition row k) .zero)
    (p.weights.getD (p.weightPosition p.transposed k column) .zero))

/-- An element of the product. -/
def entry (arith : Arithmetic) (p : Product) (row column : Nat) : Single :=
  (List.range p.inner).foldl (p.accumulate arith row column) (p.start column)

/-! ## Schedules -/

/-- Elements by their positions, in the order in which they are written. -/
abbrev Writes := List (Nat × Single)

def rowWrites (arith : Arithmetic) (p : Product) (row : Nat) : Writes :=
  (List.range p.columns).map fun column => (row * p.columns + column, p.entry arith row column)

/-- The sums of a tile, before any term. -/
def tileStart (p : Product) (column : Nat) : List (List Single) :=
  (List.range ProductSizes.tile).map fun _ =>
    (List.range ProductSizes.tile).map fun c => p.start (column + c)

/-- Adds the `k`-th term to all sums of a tile. -/
def tileStep (arith : Arithmetic) (p : Product) (row column : Nat) (sums : List (List Single))
    (k : Nat) : List (List Single) :=
  sums.mapIdx fun r rowSums => rowSums.mapIdx fun c sum =>
    p.accumulate arith (row + r) (column + c) sum k

/-- The sums of the tile whose first element is in the given row and column. -/
def tileSums (arith : Arithmetic) (p : Product) (row column : Nat) : List (List Single) :=
  (List.range p.inner).foldl (p.tileStep arith row column) (p.tileStart column)

/-- The writes of one tile of a band. -/
def tileWrites (arith : Arithmetic) (p : Product) (band column : Nat) : Writes :=
  ((p.tileSums arith (band * ProductSizes.tile) column).mapIdx fun r rowSums =>
    rowSums.mapIdx fun c sum => (band * p.bandLength + (r * p.columns + column + c), sum)).flatten

/-- The writes of a band, tile after tile. -/
def bandWrites (arith : Arithmetic) (p : Product) (band : Nat) : Writes :=
  (List.range (p.columns / ProductSizes.tile)).flatMap fun t =>
    p.tileWrites arith band (t * ProductSizes.tile)

/-- How the elements are computed. -/
inductive Schedule where
  | byRow
  | byTile
  deriving DecidableEq, Repr

/-- All writes of a schedule. Without columns there is nothing to write, however many rows there
    are. -/
def writes (arith : Arithmetic) (p : Product) (schedule : Schedule) : Writes :=
  if p.columns = 0 then []
  else match schedule with
    | .byRow => (List.range p.rows).flatMap (p.rowWrites arith)
    | .byTile => (List.range (p.rows / ProductSizes.tile)).flatMap (p.bandWrites arith)

/-- Performs writes on an array. -/
def perform (xs : Array Single) (ws : Writes) : Array Single :=
  ws.foldl (fun xs w => xs.setIfInBounds w.1 w.2) xs

/-- The product, by the given schedule. -/
def computed (arith : Arithmetic) (p : Product) (schedule : Schedule) : Array Single :=
  perform (Array.replicate p.count .zero) (p.writes arith schedule)

theorem size_perform (xs : Array Single) (ws : Writes) : (perform xs ws).size = xs.size := by
  unfold perform
  induction ws generalizing xs with
  | nil => rfl
  | cons w ws ih => rw [List.foldl_cons, ih, Array.size_setIfInBounds]

@[simp] theorem size_computed (arith : Arithmetic) (p : Product) (schedule : Schedule) :
    (p.computed arith schedule).size = p.count := by
  rw [computed, size_perform, Array.size_replicate]

end Product

end KernelDispatch
