import KernelDispatch.Proofs.Operation.Schedules
import KernelDispatch.Proofs.Operation.Windows

/-
  Products of matrices with all of their arithmetic checked: every sum and product of sizes that a
  run forms, every position that it reads or writes, and the length of the chunks that it splits
  its result into. `Product.computed?` is absent as soon as one check fails. If the buffers of the
  factors and of the product have sizes in bytes, then the one check that can fail is that of the
  length of a band of tiles (`Product.InRange.computed?_eq`).
-/

namespace KernelDispatch

/-- A fold goes through steps that do not fail where the invariant `P` holds. -/
theorem foldlM_eq_some_foldl {α β : Type} {f : β → α → Option β} {g : β → α → β} {P : β → Prop}
    {l : List α} (hstep : ∀ y, P y → ∀ x ∈ l, f y x = some (g y x) ∧ P (g y x)) {y : β} (hy : P y) :
    l.foldlM f y = some (l.foldl g y) := by
  induction l generalizing y with
  | nil => rfl
  | cons x l ih =>
    obtain ⟨hx, hnext⟩ := hstep y hy x List.mem_cons_self
    rw [List.foldlM_cons, hx]
    exact ih (fun y hy x hx => hstep y hy x (List.mem_cons_of_mem _ hx)) hnext

theorem plus?_eq_some {a b : Nat} (h : a + b < sizeLimit) : plus? a b = some (a + b) := if_pos h

/-! ## Chunks -/

/-- The chunks that a buffer of `count` elements is split into, by number and length. The last one
    may be shorter than the others. Chunks of length zero are refused. -/
def chunks? (count length : Nat) : Option (List (Nat × Nat)) :=
  if length = 0 then none
  else some ((List.range (Layout.blocksFor count length)).map fun i =>
    (i, min length (count - i * length)))

/-- A buffer that is full of chunks has that many of them, all of the same length. -/
theorem chunks?_eq_some {n length : Nat} (h : 0 < length) :
    chunks? (n * length) length = some ((List.range n).map fun i => (i, length)) := by
  have hcount : Layout.blocksFor (n * length) length = n := by
    rw [Layout.blocksFor_eq h, if_pos (Nat.mul_mod_left n length), Nat.mul_div_cancel n h]
  rw [chunks?, if_neg (Nat.ne_of_gt h), hcount, Option.some.injEq]
  refine List.map_congr_left fun i hi => ?_
  have hrest : length ≤ n * length - i * length := by
    rw [← Nat.sub_mul]
    exact Nat.le_mul_of_pos_left _ (Nat.sub_pos_of_lt (List.mem_range.1 hi))
  rw [Nat.min_eq_left hrest]

namespace Product

variable (arith : Arithmetic) (p : Product)

/-! ## Checked schedules -/

/-- `start` with the position checked. -/
def start? (column : Nat) : Option Single :=
  match p.bias with
  | some bias => bias[column]?
  | none => some .zero

/-- `weightPosition` with both steps checked. -/
def weightPosition? (k column : Nat) : Option Nat :=
  if p.transposed then digit? column p.inner k else digit? k p.columns column

/-- `accumulate` with everything checked. -/
def accumulate? (row column : Nat) (sum : Single) (k : Nat) : Option Single := do
  let i ← digit? row p.inner k
  let j ← p.weightPosition? k column
  let x ← p.left[i]?
  let y ← p.weights[j]?
  return arith.add sum (arith.mul x y)

/-- `entry` with everything checked. -/
def element? (row column : Nat) : Option Single := do
  let start ← p.start? column
  (List.range p.inner).foldlM (p.accumulate? arith row column) start

/-- The writes of a row to a chunk of the given length. -/
def rowWrites? (row length : Nat) : Option Writes :=
  (List.range length).mapM fun column =>
    (p.element? arith row column).map fun x => (row * p.columns + column, x)

/-- `tileStart` with everything checked. -/
def tileStart? (column : Nat) : Option (List (List Single)) :=
  (List.range ProductSizes.tile).mapM fun _ => (List.range ProductSizes.tile).mapM fun c =>
    (plus? column c).bind p.start?

/-- `tileStep` with everything checked. -/
def tileStep? (row column : Nat) (sums : List (List Single)) (k : Nat) :
    Option (List (List Single)) :=
  sums.zipIdx.mapM fun (rowSums, r) => rowSums.zipIdx.mapM fun (sum, c) => do
    p.accumulate? arith (← plus? row r) (← plus? column c) sum k

/-- `tileSums` with everything checked. -/
def tileSums? (row column : Nat) : Option (List (List Single)) := do
  let start ← p.tileStart? column
  (List.range p.inner).foldlM (p.tileStep? arith row column) start

/-- The writes of one row of a tile to a band of the given length. -/
def tileRowWrites? (band length column r : Nat) (rowSums : List Single) : Option Writes := do
  let start ← digit? r p.columns column
  let stop ← plus? start ProductSizes.tile
  if stop ≤ length then
    some (rowSums.mapIdx fun c sum => (band * p.bandLength + (start + c), sum))
  else none

/-- The writes of one tile to a band of the given length. -/
def tileWrites? (band length column : Nat) : Option Writes :=
  (times? band ProductSizes.tile).bind fun row =>
    (p.tileSums? arith row column).bind fun sums =>
      (sums.zipIdx.mapM fun (rowSums, r) => p.tileRowWrites? band length column r rowSums).map
        List.flatten

/-- The writes of one band of the given length. -/
def bandWrites? (band length : Nat) : Option Writes :=
  ((List.range (Layout.blocksFor p.columns ProductSizes.tile)).mapM fun t =>
    p.tileWrites? arith band length (t * ProductSizes.tile)).map List.flatten

/-- The writes to the chunks of a buffer, one chunk after the other. -/
def chunkWrites? (count length : Nat) (writes? : Nat → Nat → Option Writes) : Option Writes := do
  let chunks ← chunks? count length
  let writes ← chunks.mapM fun (i, length) => writes? i length
  return writes.flatten

/-- `writes` with everything checked, the split into chunks included. -/
def writes? (schedule : Schedule) : Option Writes :=
  if p.columns = 0 then some []
  else match schedule with
    | .byRow => chunkWrites? p.count p.columns (p.rowWrites? arith)
    | .byTile => (times? ProductSizes.tile p.columns).bind fun length =>
        chunkWrites? p.count length (p.bandWrites? arith)

/-- `computed` with everything checked. -/
def computed? (schedule : Schedule) : Option (Array Single) := do
  let count ← times? p.rows p.columns
  let writes ← p.writes? arith schedule
  return perform (Array.replicate count .zero) writes

/-! ## Ranges -/

/-- The buffers of the factors and of the product have sizes in bytes. -/
structure InRange (p : Product) : Prop extends Sized p where
  leftBytes : p.left.size * 4 < sizeLimit
  weightBytes : p.weights.size * 4 < sizeLimit
  bytes : p.count * 4 < sizeLimit

variable {p}

/-- If there are columns, there are no more rows than sizes. -/
theorem InRange.rows_lt (hp : p.InRange) (hcolumns : 0 < p.columns) : p.rows < sizeLimit := by
  have hbytes : p.rows * p.columns * 4 < sizeLimit := hp.bytes
  have hle : p.rows ≤ p.rows * p.columns := Nat.le_mul_of_pos_right _ hcolumns
  omega

/-! ## Elements -/

theorem start?_eq_some (hp : p.Sized) {column : Nat} (hcolumn : column < p.columns) :
    p.start? column = some (p.start column) := by
  cases hbias : p.bias with
  | none => simp only [start?, start, hbias]
  | some bias =>
    have hread := hp.getElem?_bias hcolumn hbias
    simp only [start?, hbias, hread]

theorem accumulate?_eq_some (hp : p.InRange) {row column k : Nat} (hrow : row < p.rows)
    (hcolumn : column < p.columns) (hk : k < p.inner) (sum : Single) :
    p.accumulate? arith row column sum k = some (p.accumulate arith row column sum k) := by
  have hleft := hp.leftPosition_lt hrow hk
  have hweights := hp.weightPosition_lt hcolumn hk
  have hleftBytes := hp.leftBytes
  have hweightBytes := hp.weightBytes
  have hi : digit? row p.inner k = some (p.leftPosition row k) :=
    digit?_eq_some (Nat.lt_trans hleft (by omega))
  have hj : p.weightPosition? k column = some (p.weightPosition p.transposed k column) := by
    have hlt : p.weightPosition p.transposed k column < sizeLimit := by omega
    unfold weightPosition?
    unfold ProductSizes.weightPosition at hlt ⊢
    split
    · rename_i htransposed
      rw [if_pos htransposed] at hlt
      exact digit?_eq_some hlt
    · rename_i htransposed
      rw [if_neg htransposed] at hlt
      exact digit?_eq_some hlt
  unfold accumulate? accumulate
  rw [hi, hj]
  simp [Array.getD_eq_getD_getElem?, hleft, hweights]

theorem element?_eq_some (hp : p.InRange) {row column : Nat} (hrow : row < p.rows)
    (hcolumn : column < p.columns) :
    p.element? arith row column = some (p.entry arith row column) := by
  rw [element?, start?_eq_some hp.toSized hcolumn]
  refine foldlM_eq_some_foldl (P := fun _ => True) (fun sum _ k hk => ⟨?_, trivial⟩) trivial
  exact accumulate?_eq_some arith hp hrow hcolumn (List.mem_range.1 hk) sum

theorem rowWrites?_eq_some (hp : p.InRange) {row : Nat} (hrow : row < p.rows) :
    p.rowWrites? arith row p.columns = some (p.rowWrites arith row) := by
  refine mapM_eq_some_map fun column hcolumn => ?_
  rw [element?_eq_some arith hp hrow (List.mem_range.1 hcolumn)]
  rfl

/-! ## Tiles -/

/-- Sums for the rows and the columns of a tile. -/
def IsTile (sums : List (List Single)) : Prop :=
  sums.length = ProductSizes.tile ∧ ∀ rowSums ∈ sums, rowSums.length = ProductSizes.tile

theorem isTile_map_range (f : Nat → Nat → Single) :
    IsTile ((List.range ProductSizes.tile).map fun r =>
      (List.range ProductSizes.tile).map (f r)) := by
  refine ⟨by rw [List.length_map, List.length_range], fun rowSums hrow => ?_⟩
  obtain ⟨r, -, rfl⟩ := List.mem_map.1 hrow
  rw [List.length_map, List.length_range]

theorem isTile_tileStep (row column k : Nat) {sums : List (List Single)} (h : IsTile sums) :
    IsTile (p.tileStep arith row column sums k) := by
  unfold tileStep
  refine ⟨by rw [List.length_mapIdx, h.1], fun rowSums hrow => ?_⟩
  obtain ⟨r, hr, rfl⟩ := List.mem_mapIdx.1 hrow
  rw [List.length_mapIdx]
  exact h.2 _ (List.getElem_mem hr)

/-- A step on the sums of a tile that is inside the product. -/
theorem tileStep?_eq_some (hp : p.InRange) {row column k : Nat}
    (hrow : row + ProductSizes.tile ≤ p.rows) (hcolumn : column + ProductSizes.tile ≤ p.columns)
    (hband : p.bandLength < sizeLimit) (hk : k < p.inner) {sums : List (List Single)}
    (h : IsTile sums) :
    p.tileStep? arith row column sums k = some (p.tileStep arith row column sums k) := by
  have htile : 0 < ProductSizes.tile := by decide
  have hrows := hp.rows_lt (by omega)
  have hcolumns : p.columns < sizeLimit :=
    Nat.lt_of_le_of_lt (Nat.le_mul_of_pos_left _ htile) hband
  unfold tileStep? tileStep
  rw [List.mapIdx_eq_zipIdx_map]
  refine mapM_eq_some_map fun ⟨rowSums, r⟩ hmem => ?_
  have hr : r < ProductSizes.tile := h.1 ▸ List.snd_lt_of_mem_zipIdx hmem
  have hlength := h.2 rowSums (List.fst_mem_of_mem_zipIdx hmem)
  dsimp only
  rw [List.mapIdx_eq_zipIdx_map]
  refine mapM_eq_some_map fun ⟨sum, c⟩ hmem' => ?_
  have hc : c < ProductSizes.tile := hlength ▸ List.snd_lt_of_mem_zipIdx hmem'
  dsimp only
  rw [plus?_eq_some (by omega), plus?_eq_some (by omega)]
  exact accumulate?_eq_some arith hp (by omega) (by omega) hk sum

theorem tileSums?_eq_some (hp : p.InRange) {row column : Nat}
    (hrow : row + ProductSizes.tile ≤ p.rows) (hcolumn : column + ProductSizes.tile ≤ p.columns)
    (hband : p.bandLength < sizeLimit) :
    p.tileSums? arith row column = some (p.tileSums arith row column) := by
  have htile : 0 < ProductSizes.tile := by decide
  have hcolumns : p.columns < sizeLimit :=
    Nat.lt_of_le_of_lt (Nat.le_mul_of_pos_left _ htile) hband
  have hstart : p.tileStart? column = some (p.tileStart column) := by
    refine mapM_eq_some_map fun _ _ => mapM_eq_some_map fun c hc => ?_
    have hc := List.mem_range.1 hc
    rw [plus?_eq_some (by omega), Option.bind_some, start?_eq_some hp.toSized (by omega)]
  rw [tileSums?, hstart]
  refine foldlM_eq_some_foldl (P := IsTile) (fun sums hsums k hk => ⟨?_, ?_⟩) (isTile_map_range _)
  · exact tileStep?_eq_some arith hp hrow hcolumn hband (List.mem_range.1 hk) hsums
  · exact isTile_tileStep arith row column k hsums

theorem isTile_tileSums (row column : Nat) : IsTile (p.tileSums arith row column) := by
  rw [tileSums_eq]
  exact isTile_map_range _

/-- The rows of a tile are written inside its band. -/
theorem tileRowWrites?_eq_some {column r : Nat} (hr : r < ProductSizes.tile)
    (hcolumn : column + ProductSizes.tile ≤ p.columns) (hband : p.bandLength < sizeLimit)
    (band : Nat) (rowSums : List Single) :
    p.tileRowWrites? band p.bandLength column r rowSums = some (rowSums.mapIdx fun c sum =>
      (band * p.bandLength + (r * p.columns + column + c), sum)) := by
  have hstop : r * p.columns + column + ProductSizes.tile ≤ p.bandLength := by
    have hle : (r + 1) * p.columns ≤ p.bandLength := Nat.mul_le_mul_right _ hr
    rw [Nat.add_mul, Nat.one_mul] at hle
    omega
  rw [tileRowWrites?, digit?_eq_some (by omega)]
  show (plus? (r * p.columns + column) ProductSizes.tile).bind _ = _
  rw [plus?_eq_some (by omega), Option.bind_some, if_pos hstop]

theorem tileWrites?_eq_some (hp : p.InRange) {band column : Nat}
    (hrow : band * ProductSizes.tile + ProductSizes.tile ≤ p.rows)
    (hcolumn : column + ProductSizes.tile ≤ p.columns) (hband : p.bandLength < sizeLimit) :
    p.tileWrites? arith band p.bandLength column = some (p.tileWrites arith band column) := by
  have htile : 0 < ProductSizes.tile := by decide
  have hrows := hp.rows_lt (by omega)
  unfold tileWrites? tileWrites
  rw [times?_eq_some.2 ⟨rfl, by omega⟩, Option.bind_some,
    tileSums?_eq_some arith hp hrow hcolumn hband, Option.bind_some, List.mapIdx_eq_zipIdx_map]
  refine congrArg (Option.map List.flatten) (mapM_eq_some_map fun line hline => ?_)
  have hr : line.2 < ProductSizes.tile :=
    (isTile_tileSums arith _ column).1 ▸ List.snd_lt_of_mem_zipIdx hline
  exact tileRowWrites?_eq_some hr hcolumn hband band line.1

theorem bandWrites?_eq_some (hp : p.InRange) (htiles : p.tiles = true) {band : Nat}
    (hrow : band < p.rows / ProductSizes.tile) (hband : p.bandLength < sizeLimit) :
    p.bandWrites? arith band p.bandLength = some (p.bandWrites arith band) := by
  simp only [ProductSizes.tiles, Bool.and_eq_true, beq_iff_eq] at htiles
  obtain ⟨⟨hrows, -⟩, hcolumns⟩ := htiles
  unfold bandWrites? bandWrites
  rw [Layout.blocksFor_eq (by decide), if_pos hcolumns, mapM_eq_some_map fun t ht => ?_,
    List.flatMap_def]
  · rfl
  · have ht := List.mem_range.1 ht
    unfold ProductSizes.tile at hrows hcolumns hrow ht
    exact tileWrites?_eq_some arith hp (by unfold ProductSizes.tile; omega)
      (by unfold ProductSizes.tile; omega) hband

/-! ## Whole products -/

theorem chunkWrites?_eq_some {n length : Nat} (hpos : 0 < length)
    {writes? : Nat → Nat → Option Writes} {writes : Nat → Writes}
    (h : ∀ i < n, writes? i length = some (writes i)) :
    chunkWrites? (n * length) length writes? = some ((List.range n).flatMap writes) := by
  have hchunks : ((List.range n).map fun i => (i, length)).mapM (fun (i, length) =>
      writes? i length) = some ((List.range n).map writes) := by
    rw [List.mapM_map]
    exact mapM_eq_some_map fun i hi => h i (List.mem_range.1 hi)
  rw [chunkWrites?, chunks?_eq_some hpos, List.flatMap_def]
  show Option.bind _ _ = _
  rw [Option.bind_some, hchunks]
  rfl

/-- By rows nothing can go wrong. -/
theorem writes?_byRow (hp : p.InRange) :
    p.writes? arith .byRow = some (p.writes arith .byRow) := by
  unfold writes? writes
  by_cases hcolumns : p.columns = 0
  · rw [if_pos hcolumns, if_pos hcolumns]
  · rw [if_neg hcolumns, if_neg hcolumns]
    exact chunkWrites?_eq_some (Nat.pos_of_ne_zero hcolumns) fun row hrow =>
      rowWrites?_eq_some arith hp hrow

/-- By tiles the length of a band has to be a size. -/
theorem writes?_byTile (hp : p.InRange) (htiles : p.tiles = true) :
    p.writes? arith .byTile =
      if sizeLimit ≤ p.bandLength then none else some (p.writes arith .byTile) := by
  unfold writes? writes
  by_cases hcolumns : p.columns = 0
  · have hshort : ¬sizeLimit ≤ p.bandLength := by
      rw [ProductSizes.bandLength, hcolumns]
      decide
    rw [if_pos hcolumns, if_pos hcolumns, if_neg hshort]
  · rw [if_neg hcolumns, if_neg hcolumns]
    dsimp only
    by_cases hband : sizeLimit ≤ p.bandLength
    · have hlength : times? ProductSizes.tile p.columns = none := if_neg (Nat.not_lt.2 hband)
      rw [if_pos hband, hlength]
      rfl
    · have hlt := Nat.not_le.1 hband
      have hlength : times? ProductSizes.tile p.columns = some p.bandLength :=
        times?_eq_some.2 ⟨rfl, hlt⟩
      have hcount : p.count = p.rows / ProductSizes.tile * p.bandLength := by
        simp only [ProductSizes.tiles, Bool.and_eq_true, beq_iff_eq] at htiles
        rw [ProductSizes.bandLength, ← Nat.mul_assoc,
          Nat.div_mul_cancel (Nat.dvd_of_mod_eq_zero htiles.1.1)]
        rfl
      have hpos : 0 < p.bandLength := Nat.mul_pos (by decide) (Nat.pos_of_ne_zero hcolumns)
      rw [if_neg hband, hlength, Option.bind_some, hcount]
      exact chunkWrites?_eq_some hpos fun band hrow =>
        bandWrites?_eq_some arith hp htiles hrow hlt

/-- The only check that can fail is that of the length of a band. -/
theorem InRange.computed?_eq (hp : p.InRange) {schedule : Schedule}
    (htiles : schedule = .byTile → p.tiles = true) :
    p.computed? arith schedule = if schedule = .byTile ∧ sizeLimit ≤ p.bandLength then none
      else some (p.computed arith schedule) := by
  have hbytes := hp.bytes
  have hcount : times? p.rows p.columns = some p.count :=
    times?_eq_some.2 ⟨rfl, show p.count < sizeLimit by omega⟩
  have hwrites : p.writes? arith schedule = if schedule = .byTile ∧ sizeLimit ≤ p.bandLength
      then none else some (p.writes arith schedule) := by
    cases schedule with
    | byRow =>
      rw [if_neg (by simp)]
      exact writes?_byRow arith hp
    | byTile =>
      rw [writes?_byTile arith hp (htiles rfl)]
      simp only [true_and]
  unfold computed?
  rw [hcount, hwrites]
  split <;> rfl

end Product

end KernelDispatch
