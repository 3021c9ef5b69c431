import KernelDispatch.Proofs.Memory.Relayout

/-
  Layouts as embeddings of the logical indices into a buffer, in sizes that are bounded.
  `Layout.offset?` is `Layout.offset` with every sum and product checked. Whenever the buffer itself
  has a size, no check fails (`offset?_eq_some`): a partial offset is the position of an index in
  an inner space, and all of its axes have positions. Together with the places that padding takes
  (`exists_padding`) this is `offset_embeds`.
-/

namespace KernelDispatch

/-! ## Checked arithmetic -/

/-- The sum of two sizes, absent when it is out of range. -/
def plus? (a b : Nat) : Option Nat :=
  if a + b < sizeLimit then some (a + b) else none

/-- The next partial position: one axis more, both steps checked. -/
def digit? (acc n i : Nat) : Option Nat := (times? acc n).bind fun p => plus? p i

theorem digit?_eq_some {acc n i : Nat} (h : acc * n + i < sizeLimit) :
    digit? acc n i = some (acc * n + i) := by
  have hproduct : acc * n < sizeLimit := Nat.lt_of_le_of_lt (Nat.le_add_right _ _) h
  rw [digit?, times?_eq_some.2 ⟨rfl, hproduct⟩, Option.bind_some, plus?, if_pos h]

namespace Index

/-- `positionFrom` with every step checked. -/
def positionFrom? : Nat → List Nat → Index → Option Nat
  | acc, n :: sizes, i :: index => (digit? acc n i).bind fun acc' => positionFrom? acc' sizes index
  | acc, _, _ => some acc

theorem positionFrom?_append_singleton {sizes : List Nat} {index : Index}
    (hlen : index.length = sizes.length) (acc n i : Nat) :
    positionFrom? acc (sizes ++ [n]) (index ++ [i]) =
      (positionFrom? acc sizes index).bind fun p => digit? p n i := by
  induction sizes generalizing index acc with
  | nil =>
    rw [List.length_eq_zero_iff.1 hlen]
    exact Option.bind_fun_some (digit? acc n i)
  | cons m sizes ih => cases index with
    | nil => cases hlen
    | cons j index =>
      simp only [List.cons_append, positionFrom?, Option.bind_assoc, ih (Nat.succ.inj hlen)]

/-- In a space inside the range, the walk over the axes stays inside the range. The bound `a` on
    the position so far is the volume of the axes that are behind. -/
theorem positionFrom?_eq_some {sizes : List Nat} {index : Index} (h : InBounds sizes index)
    {acc a : Nat} (hacc : acc < a) (hrange : a * volume sizes < sizeLimit) :
    positionFrom? acc sizes index = some (positionFrom acc sizes index) := by
  induction sizes generalizing index acc a with
  | nil =>
    rw [List.length_eq_zero_iff.1 h.length_eq]
    rfl
  | cons n sizes ih => cases index with
    | nil => exact h.elim
    | cons i index =>
      obtain ⟨hi, hrest⟩ := h
      rw [volume_cons, ← Nat.mul_assoc] at hrange
      have hvolume : 0 < volume sizes := Nat.zero_lt_of_lt (position_lt hrest)
      have hnext : acc * n + i < a * n := digits_lt hacc hi
      have hstep : acc * n + i < sizeLimit :=
        calc acc * n + i < a * n := hnext
          _ ≤ a * n * volume sizes := Nat.le_mul_of_pos_right _ hvolume
          _ ≤ sizeLimit := Nat.le_of_lt hrange
      rw [positionFrom?, digit?_eq_some hstep, Option.bind_some, positionFrom,
        ih hrest hnext hrange]

/-- In a space that has positions no axis is longer than the space. -/
theorem le_volume_of_mem {sizes : List Nat} (h : 0 < volume sizes) {n : Nat} (hn : n ∈ sizes) :
    n ≤ volume sizes := by
  induction sizes with
  | nil => cases hn
  | cons m sizes ih =>
    rw [volume_cons] at h ⊢
    have hm : 0 < m := Nat.pos_of_mul_pos_right h
    have hrest : 0 < volume sizes := Nat.pos_of_mul_pos_left h
    rcases List.mem_cons.1 hn with rfl | hn
    · exact Nat.le_mul_of_pos_right n hrest
    · exact Nat.le_trans (ih hrest hn) (Nat.le_mul_of_pos_left _ hm)

end Index

/-- A product that is formed is in range, as every partial product is. -/
theorem lt_of_productFrom? {acc n : Nat} {sizes : List Nat} (hacc : acc < sizeLimit)
    (h : productFrom? acc sizes = some n) : n < sizeLimit := by
  induction sizes generalizing acc with
  | nil =>
    cases h
    exact hacc
  | cons m sizes ih =>
    simp only [productFrom?, Option.bind_eq_some_iff] at h
    obtain ⟨p, hp, hrest⟩ := h
    exact ih (times?_eq_some.1 hp).2 hrest

theorem product?_eq_some {sizes : List Nat} {n : Nat} (h : product? sizes = some n) :
    n = Index.volume sizes ∧ n < sizeLimit := by
  refine ⟨?_, lt_of_productFrom? (by decide) h⟩
  rw [productFrom?_eq_some h, Nat.one_mul]

namespace Layout

/-- `blocksFor` by quotient and remainder, the round-up checked. -/
def blocksFor? (n block : Nat) : Option Nat :=
  if n % block = 0 then some (n / block) else plus? (n / block) 1

/-- `offset` with every sum and product checked, in the order in which they are formed. -/
def offset? : Layout → List Nat → Index → Option Nat
  | planar, sizes, index => Index.positionFrom? 0 sizes index
  | channelsLast, _ :: c :: sizes, i :: j :: index =>
    (Index.positionFrom? i sizes index).bind fun p => digit? p c j
  | blocked block, _ :: c :: sizes, i :: j :: index =>
    (blocksFor? c block).bind fun blocks =>
      (digit? i blocks (j / block)).bind fun start =>
        (Index.positionFrom? start sizes index).bind fun p => digit? p block (j % block)
  | _, _, _ => some 0

theorem blocksFor_eq {n block : Nat} (h : 0 < block) :
    blocksFor n block = if n % block = 0 then n / block else n / block + 1 := by
  have hn := Nat.div_add_mod n block
  have hmod : n % block - 1 < block := Nat.lt_of_le_of_lt (Nat.sub_le _ _) (Nat.mod_lt n h)
  have hlast : block - 1 < block := Nat.sub_lt h Nat.one_pos
  unfold blocksFor
  split
  · have hsum : n + (block - 1) = block * (n / block) + (block - 1) := by omega
    rw [hsum, Nat.mul_add_div h, Nat.div_eq_of_lt hlast, Nat.add_zero]
  · have hsum : n + (block - 1) = block * (n / block + 1) + (n % block - 1) := by
      rw [Nat.mul_add]
      omega
    rw [hsum, Nat.mul_add_div h, Nat.div_eq_of_lt hmod, Nat.add_zero]

theorem blocksFor?_eq_some {n block : Nat} (h : 0 < block)
    (hrange : blocksFor n block < sizeLimit) : blocksFor? n block = some (blocksFor n block) := by
  rw [blocksFor_eq h] at hrange ⊢
  unfold blocksFor?
  split
  · rfl
  · rename_i hzero
    rw [if_neg hzero] at hrange
    exact if_pos hrange

/-! ## Offsets in range -/

variable {l : Layout} {sizes : List Nat} {total : Nat}

/-- If the buffer has a size, no step of an offset leaves the range. -/
theorem offset?_eq_some (hfit : l.fitsRank sizes.length = true)
    (htotal : l.elementCount? sizes = some total) {index : Index}
    (h : Index.InBounds sizes index) :
    l.offset? sizes index = some (l.offset sizes index) := by
  have hsize : Index.volume (l.physicalSizes sizes) < sizeLimit := by
    obtain ⟨hvolume, hlt⟩ := product?_eq_some htotal
    exact hvolume ▸ hlt
  have hin := physicalIndex_inBounds hfit h
  have hvolume := Nat.zero_lt_of_lt (Index.position_lt hin)
  by_cases hl : l = .planar
  · rw [hl] at hsize ⊢
    exact Index.positionFrom?_eq_some h Nat.one_pos (by rwa [Nat.one_mul])
  · obtain ⟨n, c, rest, rfl⟩ := exists_cons_of_fitsRank hfit hl
    obtain ⟨i, j, is, rfl, hi, -, hrest⟩ := exists_cons_of_inBounds h
    have hlen := hrest.length_eq
    cases l with
    | planar => exact absurd rfl hl
    | channelsLast =>
      have hrange : n * Index.volume (rest ++ [c]) < sizeLimit := hsize
      have hwalk := Index.positionFrom?_eq_some hin.2 hi hrange
      rw [Index.positionFrom?_append_singleton hlen,
        Index.positionFrom_append_singleton hlen] at hwalk
      exact hwalk
    | blocked block =>
      have hb := pos_of_fitsRank hfit
      have hrange : n * Index.volume (blocksFor c block :: (rest ++ [block])) < sizeLimit := hsize
      -- the blocks are one axis of the buffer
      have hblocks : blocksFor c block < sizeLimit :=
        Nat.lt_of_le_of_lt (Index.le_volume_of_mem hvolume
          (List.mem_cons_of_mem _ List.mem_cons_self)) hsize
      have hwalk := Index.positionFrom?_eq_some hin.2 hi hrange
      rw [Index.positionFrom?, Index.positionFrom] at hwalk
      simp only [Index.positionFrom?_append_singleton hlen,
        Index.positionFrom_append_singleton hlen] at hwalk
      rw [offset?, blocksFor?_eq_some hb hblocks, Option.bind_some]
      exact hwalk

/-! ## Places that no logical index has -/

/-- A layout with padding rounds its channels up. -/
theorem exists_blocked_of_not_isDense (hfit : l.fitsRank sizes.length = true)
    (h : l.isDense sizes = false) :
    ∃ block n c rest, l = .blocked block ∧ sizes = n :: c :: rest ∧ 0 < block ∧
      c % block ≠ 0 := by
  have hl : l ≠ .planar := by
    rintro rfl
    cases h
  obtain ⟨n, c, rest, rfl⟩ := exists_cons_of_fitsRank hfit hl
  cases l with
  | planar => exact absurd rfl hl
  | channelsLast => cases h
  | blocked block =>
    exact ⟨block, n, c, rest, rfl, rfl, pos_of_fitsRank hfit, by simpa [isDense] using h⟩

theorem lt_blocksFor_mul {n block : Nat} (h : 0 < block) (hn : n % block ≠ 0) :
    n < blocksFor n block * block := by
  refine Nat.lt_of_le_of_ne (le_blocksFor_mul n h) fun heq => hn ?_
  rw [heq]
  exact Nat.mul_mod_left _ _

/-- A buffer with padding has a place without a logical index: the last lane of the last block. -/
theorem exists_padding (hfit : l.fitsRank sizes.length = true) (hdense : l.isDense sizes = false)
    (hpos : ∀ n ∈ sizes, 0 < n) :
    ∃ p < Index.volume (l.physicalSizes sizes),
      ∀ index, Index.InBounds sizes index → l.offset sizes index ≠ p := by
  obtain ⟨block, n, c, rest, rfl, rfl, hb, hc⟩ := exists_blocked_of_not_isDense hfit hdense
  obtain ⟨hn, -, hrest⟩ : 0 < n ∧ 0 < c ∧ ∀ m ∈ rest, 0 < m := by
    simpa only [List.forall_mem_cons] using hpos
  have hround := lt_blocksFor_mul hb hc
  have hblocks : 0 < blocksFor c block := Nat.pos_of_mul_pos_right (Nat.zero_lt_of_lt hround)
  obtain ⟨horigin, -⟩ := Index.inBounds_origin (Index.volume_pos hrest)
  let last : Index :=
    0 :: (blocksFor c block - 1) :: (Index.origin rest ++ [block - 1])
  have hlast : Index.InBounds ((blocked block).physicalSizes (n :: c :: rest)) last :=
    ⟨hn, Nat.sub_lt hblocks Nat.one_pos,
      (Index.inBounds_append horigin.length_eq).2 ⟨horigin, Nat.sub_lt hb Nat.one_pos, trivial⟩⟩
  refine ⟨_, Index.position_lt hlast, fun index hin heq => ?_⟩
  rw [offset_eq hfit hin] at heq
  have hphysical := Index.position_injective (physicalIndex_inBounds hfit hin) hlast heq
  obtain ⟨i, j, is, rfl, -, hj, -⟩ := exists_cons_of_inBounds hin
  obtain ⟨-, hdiv, htail⟩ : i = 0 ∧ j / block = blocksFor c block - 1 ∧
      is ++ [j % block] = Index.origin rest ++ [block - 1] := by
    simpa only [physicalIndex, last, List.cons.injEq] using hphysical
  have hmod : j % block = block - 1 := List.singleton_inj.1 (List.append_inj' htail rfl).2
  -- that lane would be the channel before the next multiple of the block
  have hchannel : j + 1 = blocksFor c block * block := by
    have hsplit := Nat.div_add_mod j block
    rw [hdiv, hmod, Nat.mul_sub, Nat.mul_one, Nat.mul_comm block] at hsplit
    have hle : block ≤ blocksFor c block * block := Nat.le_mul_of_pos_left _ hblocks
    omega
  omega

/-- Offsets embed the logical indices into a buffer that has a size: they are formed without
    leaving the range, lie inside the buffer, are the positions of the physical indices and differ
    for different indices. They fill the buffer if the layout is dense; otherwise, with positive
    extents, they leave a gap. -/
theorem offset_embeds (hfit : l.fitsRank sizes.length = true)
    (htotal : l.elementCount? sizes = some total) :
    (∀ index, Index.InBounds sizes index →
      l.offset? sizes index = some (l.offset sizes index) ∧
      l.offset sizes index < total ∧
      Index.InBounds (l.physicalSizes sizes) (l.physicalIndex index) ∧
      l.offset sizes index = Index.position (l.physicalSizes sizes) (l.physicalIndex index)) ∧
    (∀ index index', Index.InBounds sizes index → Index.InBounds sizes index' →
      l.offset sizes index = l.offset sizes index' → index = index') ∧
    (l.isDense sizes = true → ∀ p < total,
      ∃ index, Index.InBounds sizes index ∧ l.offset sizes index = p) ∧
    (l.isDense sizes = false → (∀ n ∈ sizes, 0 < n) → ∃ p < total,
      ∀ index, Index.InBounds sizes index → l.offset sizes index ≠ p) := by
  obtain ⟨hvolume, -⟩ := product?_eq_some htotal
  subst hvolume
  refine ⟨fun index hin => ?_, fun _ _ hin hin' => offset_injective hfit hin hin',
    fun hdense _ hp => exists_offset_eq hfit hdense hp, exists_padding hfit⟩
  exact ⟨offset?_eq_some hfit htotal hin, offset_lt hfit hin, physicalIndex_inBounds hfit hin,
    offset_eq hfit hin⟩

/-- Ten channels in blocks of eight, on two by two positions: channel 9 is lane 1 of the second
    block. -/
theorem offset_embeds_blocked :
    (blocked 8).fitsRank [1, 10, 2, 2].length = true ∧
      (blocked 8).elementCount? [1, 10, 2, 2] = some 64 ∧
      (blocked 8).offset? [1, 10, 2, 2] [0, 9, 0, 1] = some 41 ∧
      ∃ p < 64, ∀ index, Index.InBounds [1, 10, 2, 2] index →
        (blocked 8).offset [1, 10, 2, 2] index ≠ p := by
  have hfit : (blocked 8).fitsRank [1, 10, 2, 2].length = true := by decide
  have htotal : (blocked 8).elementCount? [1, 10, 2, 2] = some 64 := by decide
  obtain ⟨hevery, -, -, hgap⟩ := offset_embeds hfit htotal
  have hin : Index.InBounds [1, 10, 2, 2] [0, 9, 0, 1] := by simp [Index.InBounds]
  exact ⟨hfit, htotal, (hevery _ hin).1, hgap (by decide) (by decide)⟩

end Layout

end KernelDispatch
