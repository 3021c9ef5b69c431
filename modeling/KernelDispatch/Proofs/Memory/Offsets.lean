import KernelDispatch.Proofs.Memory.Positions
import KernelDispatch.Store

/-
  Where logical indices sit in a buffer. The offset of an index is the position of its physical
  index on the buffer's own axes (`offset_eq`), so different indices sit at different places inside
  the buffer (`offset_injective`, `offset_lt`), and in a dense layout nothing else does
  (`exists_offset_eq`).
-/

namespace KernelDispatch

namespace Layout

theorem le_blocksFor_mul (n : Nat) {block : Nat} (h : 0 < block) :
    n ≤ blocksFor n block * block := by
  unfold blocksFor
  have hdiv := Nat.div_add_mod (n + (block - 1)) block
  have hmod := Nat.mod_lt (n + (block - 1)) h
  rw [Nat.mul_comm] at hdiv
  omega

theorem div_lt_blocksFor {n i block : Nat} (h : 0 < block) (hi : i < n) :
    i / block < blocksFor n block := by
  rw [Nat.div_lt_iff_lt_mul h]
  have := le_blocksFor_mul n h
  omega

theorem blocksFor_mul_of_dvd {n block : Nat} (h : 0 < block) (hn : n % block = 0) :
    blocksFor n block * block = n := by
  have hle := le_blocksFor_mul n h
  obtain ⟨k, rfl⟩ := Nat.dvd_of_mod_eq_zero hn
  have hlt : blocksFor (block * k) block < k + 1 := by
    unfold blocksFor
    rw [Nat.div_lt_iff_lt_mul h, Nat.succ_mul, Nat.mul_comm]
    omega
  have hmul : blocksFor (block * k) block * block ≤ k * block := Nat.mul_le_mul_right _ (by omega)
  rw [Nat.mul_comm k block] at hmul
  omega

/-- A layout with a channel axis is for tensors that have one. -/
theorem exists_cons_of_fitsRank {l : Layout} {sizes : List Nat}
    (h : l.fitsRank sizes.length = true) (hl : l ≠ .planar) :
    ∃ n c rest, sizes = n :: c :: rest := by
  have hrank : 2 ≤ sizes.length := by
    cases l with
    | planar => exact absurd rfl hl
    | channelsLast =>
      have := of_decide_eq_true h
      omega
    | blocked block =>
      simp only [fitsRank, Bool.and_eq_true, decide_eq_true_eq] at h
      exact h.1
  match sizes, hrank with
  | n :: c :: rest, _ => exact ⟨n, c, rest, rfl⟩

theorem pos_of_fitsRank {block rank : Nat} (h : (blocked block).fitsRank rank = true) :
    0 < block := by
  simp only [fitsRank, Bool.and_eq_true, decide_eq_true_eq] at h
  exact h.2

theorem exists_cons_of_inBounds {n c : Nat} {rest : List Nat} {index : Index}
    (h : Index.InBounds (n :: c :: rest) index) :
    ∃ i j is, index = i :: j :: is ∧ i < n ∧ j < c ∧ Index.InBounds rest is := by
  match index, h with
  | i :: j :: is, ⟨hi, hj, hrest⟩ => exact ⟨i, j, is, rfl, hi, hj, hrest⟩

/-- The offset is the position on the buffer's own axes. -/
theorem offset_eq {l : Layout} {sizes : List Nat} {index : Index}
    (hfit : l.fitsRank sizes.length = true) (h : Index.InBounds sizes index) :
    l.offset sizes index = Index.position (l.physicalSizes sizes) (l.physicalIndex index) := by
  by_cases hl : l = .planar
  · rw [hl]
    rfl
  · obtain ⟨n, c, rest, rfl⟩ := exists_cons_of_fitsRank hfit hl
    obtain ⟨i, j, is, rfl, -, -, hrest⟩ := exists_cons_of_inBounds h
    cases l with
    | planar => exact absurd rfl hl
    | channelsLast =>
      show Index.positionFrom i rest is * c + j =
        Index.positionFrom (0 * n + i) (rest ++ [c]) (is ++ [j])
      rw [Index.positionFrom_append_singleton hrest.length_eq, Nat.zero_mul, Nat.zero_add]
    | blocked block =>
      show Index.positionFrom (i * blocksFor c block + j / block) rest is * block + j % block =
        Index.positionFrom ((0 * n + i) * blocksFor c block + j / block) (rest ++ [block])
          (is ++ [j % block])
      rw [Index.positionFrom_append_singleton hrest.length_eq, Nat.zero_mul, Nat.zero_add]

theorem physicalIndex_inBounds {l : Layout} {sizes : List Nat} {index : Index}
    (hfit : l.fitsRank sizes.length = true) (h : Index.InBounds sizes index) :
    Index.InBounds (l.physicalSizes sizes) (l.physicalIndex index) := by
  by_cases hl : l = .planar
  · rw [hl]
    exact h
  · obtain ⟨n, c, rest, rfl⟩ := exists_cons_of_fitsRank hfit hl
    obtain ⟨i, j, is, rfl, hi, hj, hrest⟩ := exists_cons_of_inBounds h
    cases l with
    | planar => exact absurd rfl hl
    | channelsLast =>
      exact ⟨hi, (Index.inBounds_append hrest.length_eq).2 ⟨hrest, hj, trivial⟩⟩
    | blocked block =>
      have hb := pos_of_fitsRank hfit
      exact ⟨hi, div_lt_blocksFor hb hj,
        (Index.inBounds_append hrest.length_eq).2 ⟨hrest, Nat.mod_lt j hb, trivial⟩⟩

theorem physicalIndex_injective {l : Layout} {sizes : List Nat} {index index' : Index}
    (hfit : l.fitsRank sizes.length = true) (h : Index.InBounds sizes index)
    (h' : Index.InBounds sizes index') (heq : l.physicalIndex index = l.physicalIndex index') :
    index = index' := by
  by_cases hl : l = .planar
  · rw [hl] at heq
    exact heq
  · obtain ⟨n, c, rest, rfl⟩ := exists_cons_of_fitsRank hfit hl
    obtain ⟨i, j, is, rfl, -, -, hrest⟩ := exists_cons_of_inBounds h
    obtain ⟨i', j', is', rfl, -, -, hrest'⟩ := exists_cons_of_inBounds h'
    cases l with
    | planar => exact absurd rfl hl
    | channelsLast =>
      simp only [physicalIndex, List.cons.injEq] at heq
      obtain ⟨his, hj⟩ := List.append_inj' heq.2 rfl
      rw [heq.1, his, List.singleton_inj.1 hj]
    | blocked block =>
      simp only [physicalIndex, List.cons.injEq] at heq
      obtain ⟨hi, hdiv, hrests⟩ := heq
      obtain ⟨his, hmod⟩ := List.append_inj' hrests rfl
      have hj : j = j' := by
        rw [← Nat.div_add_mod j block, ← Nat.div_add_mod j' block, hdiv, List.singleton_inj.1 hmod]
      rw [hi, hj, his]

/-- In a dense layout every physical index is that of a logical one. -/
theorem exists_physicalIndex_eq {l : Layout} {sizes : List Nat} {index' : Index}
    (hfit : l.fitsRank sizes.length = true) (hdense : l.isDense sizes = true)
    (h : Index.InBounds (l.physicalSizes sizes) index') :
    ∃ index, Index.InBounds sizes index ∧ l.physicalIndex index = index' := by
  by_cases hl : l = .planar
  · rw [hl] at h ⊢
    exact ⟨index', h, rfl⟩
  · obtain ⟨n, c, rest, rfl⟩ := exists_cons_of_fitsRank hfit hl
    -- the last of the physical axes is taken apart from the others
    have hlast : ∀ (m : Nat) (js : Index), Index.InBounds (rest ++ [m]) js →
        ∃ is j, js = is ++ [j] ∧ Index.InBounds rest is ∧ j < m := by
      intro m js hjs
      have hlen : js.length = rest.length + 1 := by
        rw [hjs.length_eq, List.length_append]
        rfl
      obtain ⟨is, j, rfl⟩ : ∃ is j, js = is ++ [j] :=
        ⟨js.dropLast, js.getLast (by intro he; rw [he] at hlen; cases hlen),
          (List.dropLast_concat_getLast _).symm⟩
      have hlen' : is.length = rest.length := by simpa using hlen
      obtain ⟨his, hj⟩ := (Index.inBounds_append hlen').1 hjs
      exact ⟨is, j, rfl, his, hj.1⟩
    cases l with
    | planar => exact absurd rfl hl
    | channelsLast =>
      match index', h with
      | i :: js, ⟨hi, hjs⟩ =>
        obtain ⟨is, j, rfl, his, hj⟩ := hlast c js hjs
        exact ⟨i :: j :: is, ⟨hi, hj, his⟩, rfl⟩
    | blocked block =>
      match index', h with
      | i :: q :: js, ⟨hi, hq, hjs⟩ =>
        obtain ⟨is, r, rfl, his, hr⟩ := hlast block js hjs
        have hb := pos_of_fitsRank hfit
        have hc := blocksFor_mul_of_dvd hb (by simpa [isDense] using hdense)
        have hlt : q * block + r < c := by
          calc q * block + r < q * block + block := by omega
            _ = (q + 1) * block := by rw [Nat.succ_mul]
            _ ≤ blocksFor c block * block := Nat.mul_le_mul_right _ hq
            _ = c := hc
        have hdiv : (q * block + r) / block = q := by
          rw [Nat.mul_comm, Nat.mul_add_div hb, Nat.div_eq_of_lt hr, Nat.add_zero]
        have hmod : (q * block + r) % block = r := by
          rw [Nat.mul_comm, Nat.mul_add_mod, Nat.mod_eq_of_lt hr]
        exact ⟨i :: (q * block + r) :: is, ⟨hi, hlt, his⟩, by simp only [physicalIndex, hdiv, hmod]⟩

/-! ## Offsets -/

variable {l : Layout} {sizes : List Nat}

theorem offset_lt {index : Index} (hfit : l.fitsRank sizes.length = true)
    (h : Index.InBounds sizes index) :
    l.offset sizes index < Index.volume (l.physicalSizes sizes) := by
  rw [offset_eq hfit h]
  exact Index.position_lt (physicalIndex_inBounds hfit h)

theorem offset_injective {index index' : Index} (hfit : l.fitsRank sizes.length = true)
    (h : Index.InBounds sizes index) (h' : Index.InBounds sizes index')
    (heq : l.offset sizes index = l.offset sizes index') : index = index' := by
  rw [offset_eq hfit h, offset_eq hfit h'] at heq
  exact physicalIndex_injective hfit h h' (Index.position_injective
    (physicalIndex_inBounds hfit h) (physicalIndex_inBounds hfit h') heq)

/-- A dense buffer has no place without a logical index. -/
theorem exists_offset_eq (hfit : l.fitsRank sizes.length = true)
    (hdense : l.isDense sizes = true) {j : Nat}
    (hj : j < Index.volume (l.physicalSizes sizes)) :
    ∃ index, Index.InBounds sizes index ∧ l.offset sizes index = j := by
  obtain ⟨index', hin', hpos⟩ := Index.exists_position_eq hj
  obtain ⟨index, hin, hphys⟩ := exists_physicalIndex_eq hfit hdense hin'
  exact ⟨index, hin, by rw [offset_eq hfit hin, hphys, hpos]⟩

end Layout

/-! ## Sizes of buffers -/

theorem productFrom?_eq_some {acc n : Nat} {sizes : List Nat}
    (h : productFrom? acc sizes = some n) : n = acc * Index.volume sizes := by
  induction sizes generalizing acc with
  | nil =>
    cases h
    rw [Index.volume_nil, Nat.mul_one]
  | cons m sizes ih =>
    simp only [productFrom?, Option.bind_eq_some_iff] at h
    obtain ⟨p, hp, hrest⟩ := h
    rw [ih hrest, ← (times?_eq_some.1 hp).1, Index.volume_cons, Nat.mul_assoc]

theorem Shape.length_of_sizes? {s : Shape} {sizes : List Nat} (h : s.sizes? = some sizes) :
    sizes.length = s.rank := by
  have hlen : ∀ (es : List Extent) (ns : List Nat), es.mapM Extent.value? = some ns →
      ns.length = es.length := by
    intro es
    induction es with
    | nil =>
      rintro ns ⟨⟩
      rfl
    | cons e es ih =>
      intro ns hns
      simp only [List.mapM_cons, bind, Option.bind_eq_some_iff, pure, Option.some.injEq] at hns
      obtain ⟨n, -, ns', hns', rfl⟩ := hns
      rw [List.length_cons, List.length_cons, ih ns' hns']
  exact hlen s.extents sizes h

/-- A memory takes as many bytes as its buffer has places, padding included. -/
theorem Descriptor.requiredBytes_eq_ok {d : Descriptor} {n : Nat} (h : d.requiredBytes = .ok n) :
    ∃ sizes, d.shape.sizes? = some sizes ∧ d.layout.fitsRank sizes.length = true ∧
      n = Index.volume (d.layout.physicalSizes sizes) * d.elementType.width := by
  unfold requiredBytes at h
  split at h
  · cases h
  · rename_i hformed
    split at h
    · cases h
    · split at h
      · rename_i size hsize
        cases h
        simp only [byteSize?, elementCount?, Option.bind_eq_some_iff] at hsize
        obtain ⟨count, ⟨sizes, hsizes, hcount⟩, htimes⟩ := hsize
        have hwell : d.isWellFormed = true := by simpa using hformed
        rw [if_pos hwell] at hcount
        refine ⟨sizes, hsizes, ?_, ?_⟩
        · rw [Shape.length_of_sizes? hsizes]
          exact hwell
        · rw [← (times?_eq_some.1 htimes).1, productFrom?_eq_some hcount, Nat.one_mul]
      · cases h

end KernelDispatch
