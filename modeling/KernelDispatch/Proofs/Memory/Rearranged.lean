import KernelDispatch.Proofs.Memory.Offsets

/-
  Moving a logical tensor between buffers of different layouts. The elements that are placed in a
  buffer end up where its layout has them, since no two of them share a place
  (`getD_placed_of_mem`), and everything else keeps what was there before. So a rearranged buffer
  has the logical elements of the source and zeros for padding (`sameElements_rearranged`,
  `zeroPadded_rearranged`).
-/

namespace KernelDispatch

namespace Bytes

/-! ## Single bytes -/

theorem getD_setIfInBounds (b : Bytes) (i j : Nat) (x : UInt8) :
    (b.setIfInBounds i x).getD j 0 = if i = j ∧ j < b.size then x else b.getD j 0 := by
  simp only [Array.getD_eq_getD_getElem?, Array.getElem?_setIfInBounds]
  by_cases hij : i = j
  · subst hij
    by_cases hlt : i < b.size <;> simp [hlt]
  · simp [hij]

theorem getD_overwrite (b : Bytes) (start : Nat) (xs : List UInt8) (j : Nat) :
    (b.overwrite start xs).getD j 0 =
      if start ≤ j ∧ j < start + xs.length ∧ j < b.size then xs.getD (j - start) 0
      else b.getD j 0 := by
  induction xs generalizing b start with
  | nil =>
    rw [overwrite, if_neg]
    simp only [List.length_nil]
    omega
  | cons x xs ih =>
    rw [overwrite, ih, getD_setIfInBounds, Array.size_setIfInBounds, List.length_cons]
    by_cases hj : start = j
    · subst hj
      rw [if_neg (by omega)]
      by_cases hlt : start < b.size
      · rw [if_pos ⟨rfl, hlt⟩, if_pos ⟨by omega, by omega, hlt⟩, Nat.sub_self]
        rfl
      · rw [if_neg (by omega), if_neg (by omega)]
    · rw [if_neg (by omega : ¬ (start = j ∧ j < b.size))]
      by_cases hin : start + 1 ≤ j ∧ j < start + 1 + xs.length ∧ j < b.size
      · rw [if_pos hin, if_pos (by omega), show j - start = j - (start + 1) + 1 by omega]
        rfl
      · rw [if_neg hin, if_neg (by omega)]

/-- A buffer that is overwritten by one of its size becomes that one. -/
theorem overwrite_toList {b b' : Bytes} (h : b.size = b'.size) :
    b.overwrite 0 b'.toList = b' := by
  have hsize : (b.overwrite 0 b'.toList).size = b'.size := by rw [size_overwrite, h]
  refine Array.ext hsize fun j hj hj' => ?_
  have hget := getD_overwrite b 0 b'.toList j
  rw [if_pos ⟨Nat.zero_le j, by rw [Array.length_toList, Nat.zero_add]; exact hj', h ▸ hj'⟩] at hget
  simpa [Array.getD_eq_getD_getElem?, List.getD_eq_getElem?_getD, hj', hsize] using hget

theorem getD_zeros (n j : Nat) : (zeros n).getD j 0 = 0 := by
  simp only [zeros, Array.getD_eq_getD_getElem?, Array.getElem?_replicate]
  split <;> rfl

theorem getD_block (b : Bytes) (start width : Nat) {r : Nat} (hr : r < width) :
    (b.block start width).getD r 0 = b.getD (start + r) 0 := by
  simp [block, List.getD_eq_getElem?_getD, hr]

@[simp] theorem length_block (b : Bytes) (start width : Nat) :
    (b.block start width).length = width := by simp [block]

theorem block_eq_block {b b' : Bytes} {start start' width : Nat}
    (h : ∀ r < width, b.getD (start + r) 0 = b'.getD (start' + r) 0) :
    b.block start width = b'.block start' width :=
  List.map_congr_left fun r hr => h r (List.mem_range.1 hr)

/-! ## Logical elements and padding -/

/-- The bytes of a logical element. -/
def element (b : Bytes) (width : Nat) (l : Layout) (sizes : List Nat) (index : Index) :
    List UInt8 :=
  b.block (l.offset sizes index * width) width

/-- Both buffers have the same logical elements. -/
def SameElements (width : Nat) (sizes : List Nat) (b : Bytes) (l : Layout) (b' : Bytes)
    (l' : Layout) : Prop :=
  ∀ index, Index.InBounds sizes index →
    b.element width l sizes index = b'.element width l' sizes index

/-- The byte belongs to the logical element. -/
def Covers (width : Nat) (l : Layout) (sizes : List Nat) (index : Index) (j : Nat) : Prop :=
  l.offset sizes index * width ≤ j ∧ j < l.offset sizes index * width + width

/-- Every byte that belongs to no logical element is zero. -/
def ZeroPadded (width : Nat) (sizes : List Nat) (b : Bytes) (l : Layout) : Prop :=
  ∀ j < b.size, (∀ index, Index.InBounds sizes index → ¬ Covers width l sizes index j) →
    b.getD j 0 = 0

variable {width : Nat} {sizes : List Nat} {source : Bytes} {l l' : Layout}

/-- A byte belongs to one logical element at most. -/
theorem Covers.unique {index index' : Index} {j : Nat} (hfit : l.fitsRank sizes.length = true)
    (hin : Index.InBounds sizes index) (hin' : Index.InBounds sizes index')
    (h : Covers width l sizes index j) (h' : Covers width l sizes index' j) : index = index' := by
  obtain ⟨hle, hlt⟩ := h
  obtain ⟨hle', hlt'⟩ := h'
  refine Layout.offset_injective hfit hin hin' ?_
  have heq : l.offset sizes index * width + (j - l.offset sizes index * width) =
      l.offset sizes index' * width + (j - l.offset sizes index' * width) := by omega
  exact (Index.digits_injective (by omega) (by omega) heq).1

/-- In a dense layout every byte belongs to a logical element. -/
theorem exists_covers (hfit : l.fitsRank sizes.length = true) (hdense : l.isDense sizes = true)
    {j : Nat} (hj : j < Index.volume (l.physicalSizes sizes) * width) :
    ∃ index, Index.InBounds sizes index ∧ Covers width l sizes index j := by
  have hwidth : 0 < width := by
    rcases Nat.eq_zero_or_pos width with h | h
    · rw [h, Nat.mul_zero] at hj
      omega
    · exact h
  obtain ⟨index, hin, hoffset⟩ := Layout.exists_offset_eq hfit hdense
    (j := j / width) (Nat.div_lt_of_lt_mul (by rwa [Nat.mul_comm]))
  have hdiv := Nat.div_add_mod j width
  have hmod := Nat.mod_lt j hwidth
  refine ⟨index, hin, ?_⟩
  unfold Covers
  rw [hoffset, Nat.mul_comm]
  omega

/-! ## Placing elements -/

/-- Overwrites the elements at the given indices, one after the other. -/
def placed (width : Nat) (l : Layout) (sizes : List Nat) :
    List (Index × List UInt8) → Bytes → Bytes
  | [], b => b
  | e :: entries, b => placed width l sizes entries (b.overwrite (l.offset sizes e.1 * width) e.2)

/-- Bytes of other elements, and padding, stay as they are. -/
theorem getD_placed_of_not_covers {entries : List (Index × List UInt8)} {b : Bytes} {j : Nat}
    (hlen : ∀ e ∈ entries, e.2.length = width)
    (h : ∀ e ∈ entries, ¬ Covers width l sizes e.1 j) :
    (placed width l sizes entries b).getD j 0 = b.getD j 0 := by
  induction entries generalizing b with
  | nil => rfl
  | cons e entries ih =>
    obtain ⟨hlen₁, hlens⟩ := List.forall_mem_cons.1 hlen
    obtain ⟨hfirst, hrest⟩ := List.forall_mem_cons.1 h
    rw [placed, ih hlens hrest, getD_overwrite, if_neg]
    rw [hlen₁]
    rintro ⟨hle, hlt, -⟩
    exact hfirst ⟨hle, hlt⟩

/-- An element that is placed is found at its place afterwards: what is placed later lies
    elsewhere, or is the same. -/
theorem getD_placed_of_mem {entries : List (Index × List UInt8)} {b : Bytes}
    (hfit : l.fitsRank sizes.length = true)
    (hsize : b.size = Index.volume (l.physicalSizes sizes) * width)
    (hlen : ∀ e ∈ entries, e.2.length = width)
    (hin : ∀ e ∈ entries, Index.InBounds sizes e.1)
    (hagree : ∀ e ∈ entries, ∀ e' ∈ entries, e'.1 = e.1 → e'.2 = e.2)
    {e : Index × List UInt8} (h : e ∈ entries) {r : Nat} (hr : r < width) :
    (placed width l sizes entries b).getD (l.offset sizes e.1 * width + r) 0 = e.2.getD r 0 := by
  induction entries generalizing b e with
  | nil => cases h
  | cons first entries ih =>
    obtain ⟨hlen₁, hlens⟩ := List.forall_mem_cons.1 hlen
    obtain ⟨hin₁, hins⟩ := List.forall_mem_cons.1 hin
    have hagrees : ∀ e ∈ entries, ∀ e' ∈ entries, e'.1 = e.1 → e'.2 = e.2 := fun e he e' he' =>
      hagree e (List.mem_cons_of_mem _ he) e' (List.mem_cons_of_mem _ he')
    rw [placed]
    by_cases hlater : ∃ e' ∈ entries, e'.1 = e.1
    · obtain ⟨e', he', heq⟩ := hlater
      rw [← heq, ← hagree e h e' (List.mem_cons_of_mem _ he') heq]
      exact ih (by rw [size_overwrite, hsize]) hlens hins hagrees he'
    · have heq : e = first := (List.mem_cons.1 h).resolve_right fun he => hlater ⟨e, he, rfl⟩
      subst heq
      have hcovers : Covers width l sizes e.1 (l.offset sizes e.1 * width + r) :=
        ⟨by omega, by omega⟩
      have hoffset : l.offset sizes e.1 * width + r < b.size := by
        rw [hsize]
        exact Index.digits_lt (Layout.offset_lt hfit hin₁) hr
      rw [getD_placed_of_not_covers hlens, getD_overwrite, hlen₁,
        if_pos ⟨by omega, by omega, hoffset⟩, Nat.add_sub_cancel_left]
      intro e' he' hcovers'
      exact hlater ⟨e', he', Covers.unique hfit (hins e' he') hin₁ hcovers' hcovers⟩

/-- Copying elements places those of the source. -/
theorem copyElementsAt_eq_placed (indices : List Index) (target : Bytes) :
    copyElementsAt width sizes source l l' indices target =
      placed width l' sizes (indices.map fun index => (index, source.element width l sizes index))
        target := by
  induction indices generalizing target with
  | nil => rfl
  | cons index indices ih => exact ih _

/-- Storing elements places their bytes. -/
theorem putElementsAt_eq_placed (b : Bytes) (indices : List Index) (xs : List Single) :
    b.putElementsAt l sizes indices xs =
      placed 4 l sizes (indices.zip (xs.map Single.toBytes)) b := by
  induction indices generalizing b xs with
  | nil => rfl
  | cons index indices ih => cases xs with
    | nil => rfl
    | cons x xs => rw [putElementsAt, ih, Nat.mul_comm]; rfl

/-! ## Rearranging -/

variable {target : Bytes}

theorem sameElements_rearranged (hne : l ≠ l') (hfit : l'.fitsRank sizes.length = true)
    (hsize : target.size = Index.volume (l'.physicalSizes sizes) * width) :
    SameElements width sizes (rearranged width sizes source l target l') l' source l := by
  intro index hin
  unfold rearranged
  rw [if_neg hne, copyElementsAt_eq_placed]
  refine block_eq_block fun r hr => ?_
  have hplaced : (index, source.element width l sizes index) ∈
      (Index.visited sizes).map fun index => (index, source.element width l sizes index) :=
    List.mem_map.2 ⟨index, (Index.mem_visited_iff sizes index).2 hin, rfl⟩
  rw [getD_placed_of_mem hfit _ _ _ _ hplaced hr, element, getD_block _ _ _ hr]
  · split
    · exact hsize
    · rw [size_zeros, hsize]
  · exact List.forall_mem_map.2 fun index _ => length_block _ _ _
  · exact List.forall_mem_map.2 fun index hindex => (Index.mem_visited_iff sizes index).1 hindex
  · simp only [List.forall_mem_map]
    rintro index - _ - rfl
    rfl

theorem zeroPadded_rearranged (hne : l ≠ l') (hfit : l'.fitsRank sizes.length = true)
    (hsize : target.size = Index.volume (l'.physicalSizes sizes) * width) :
    ZeroPadded width sizes (rearranged width sizes source l target l') l' := by
  intro j hj hpadding
  rw [size_rearranged, hsize] at hj
  unfold rearranged
  rw [if_neg hne, copyElementsAt_eq_placed, getD_placed_of_not_covers]
  · split
    · rename_i hdense
      obtain ⟨index, hin, hcovers⟩ := exists_covers hfit hdense hj
      exact absurd hcovers (hpadding index hin)
    · exact getD_zeros _ j
  · exact List.forall_mem_map.2 fun index _ => length_block _ _ _
  · exact List.forall_mem_map.2 fun index hindex =>
      hpadding index ((Index.mem_visited_iff sizes index).1 hindex)

end Bytes

end KernelDispatch
