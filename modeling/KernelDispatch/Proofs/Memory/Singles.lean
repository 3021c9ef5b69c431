import KernelDispatch.Proofs.Memory.Transfer
import KernelDispatch.Proofs.Memory.Visits

/-
  Memories of `f32` elements. A memory with the bytes that its descriptor asks for takes as many
  elements as its space has indices (`Store.Fits.elementCount_eq`), keeps what is written
  (`Store.read_write`) with zeros for padding (`Store.zeroPadded_write`), and is read and written
  in bounds: `Bytes.elements?` and `Bytes.withElements?` check every offset and every access, and no
  check fails (`Bytes.elements?_eq_some`, `Bytes.withElements?_eq_some`).
-/

namespace KernelDispatch

theorem Descriptor.sizes_of_shape {d : Descriptor} {sizes : List Nat}
    (h : d.shape = .ofSizes sizes) : d.sizes = sizes := by
  rw [Descriptor.sizes, h, Shape.sizes?_ofSizes, Option.getD_some]

namespace Bytes

theorem size_singles (b : Bytes) : b.singles.size = b.size / 4 := by
  rw [singles, Array.size_map, Array.size_range]

theorem getD_singles {b : Bytes} {j : Nat} (hj : j < b.singles.size) :
    b.singles.getD j .zero = b.single j := by
  rw [size_singles] at hj
  simp [singles, Array.getD_eq_getD_getElem?, hj]

/-! ## Buffers with given elements -/

variable {b : Bytes} {l : Layout} {sizes : List Nat} {xs : List Single}

theorem withElements_eq_placed (b : Bytes) (l : Layout) (sizes : List Nat) (xs : List Single) :
    b.withElements l sizes xs =
      placed 4 l sizes ((Index.visited sizes).zip (xs.map Single.toBytes)) (zeros b.size) :=
  putElementsAt_eq_placed _ _ _

/-- The element of an index is the one that the walk over the space pairs with it. -/
theorem mem_zip_visited_iff {α : Type} (sizes : List Nat) (ys : List α) (e : Index × α) :
    e ∈ (Index.visited sizes).zip ys ↔
      Index.InBounds sizes e.1 ∧ ys[Index.position sizes e.1]? = some e.2 := by
  simp only [List.mem_iff_getElem?, List.getElem?_zip_eq_some, Index.getElem?_visited]
  constructor
  · rintro ⟨i, ⟨hin, rfl⟩, hy⟩
    exact ⟨hin, hy⟩
  · rintro ⟨hin, hy⟩
    exact ⟨_, ⟨hin, rfl⟩, hy⟩

theorem length_of_mem_zip {indices : List Index} {e : Index × List UInt8}
    (h : e ∈ indices.zip (xs.map Single.toBytes)) : e.2.length = 4 := by
  obtain ⟨x, -, hx⟩ := List.mem_map.1 (List.of_mem_zip h).2
  rw [← hx, Single.length_toBytes]

/-- Every element is found where the layout has it. -/
theorem single_withElements (hfit : l.fitsRank sizes.length = true)
    (hsize : b.size = Index.volume (l.physicalSizes sizes) * 4) {index : Index}
    (hin : Index.InBounds sizes index) {x : Single}
    (hx : xs[Index.position sizes index]? = some x) :
    (b.withElements l sizes xs).single (l.offset sizes index) = x := by
  have hmem : (index, x.toBytes) ∈ (Index.visited sizes).zip (xs.map Single.toBytes) := by
    refine (mem_zip_visited_iff sizes _ _).2 ⟨hin, ?_⟩
    rw [List.getElem?_map, hx, Option.map_some]
  have hbyte : ∀ r < 4, (b.withElements l sizes xs).getD (4 * l.offset sizes index + r) 0 =
      x.toBytes.getD r 0 := by
    intro r hr
    rw [withElements_eq_placed, Nat.mul_comm]
    refine getD_placed_of_mem hfit ((size_zeros _).trans hsize) (fun e => length_of_mem_zip)
      (fun e he => ((mem_zip_visited_iff sizes _ e).1 he).1) ?_ hmem hr
    intro e he e' he' heq
    obtain ⟨-, hy⟩ := (mem_zip_visited_iff sizes _ e).1 he
    obtain ⟨-, hy'⟩ := (mem_zip_visited_iff sizes _ e').1 he'
    rw [heq, hy] at hy'
    exact (Option.some.inj hy').symm
  have hblock : (b.withElements l sizes xs).block (4 * l.offset sizes index) 4 = x.toBytes :=
    List.map_congr_left fun r hr => hbyte r (List.mem_range.1 hr)
  rw [single, hblock, Single.ofBytes_toBytes]

/-- What is stored is read again. -/
theorem elements_withElements (hfit : l.fitsRank sizes.length = true)
    (hsize : b.size = Index.volume (l.physicalSizes sizes) * 4)
    (hlen : xs.length = Index.volume sizes) : (b.withElements l sizes xs).elements l sizes = xs := by
  refine List.ext_getElem? fun i => ?_
  unfold elements elementsAt
  rw [List.getElem?_map]
  by_cases hi : i < xs.length
  · obtain ⟨index, hin, rfl⟩ := Index.exists_position_eq (hlen ▸ hi)
    have hx := List.getElem?_eq_getElem hi
    rw [(Index.getElem?_visited sizes _ index).2 ⟨hin, rfl⟩, Option.map_some,
      single_withElements hfit hsize hin hx, hx]
  · have hi := Nat.le_of_not_lt hi
    rw [List.getElem?_eq_none hi, List.getElem?_eq_none (by rwa [Index.length_visited, ← hlen]),
      Option.map_none]

theorem zeroPadded_withElements (b : Bytes) (l : Layout) (sizes : List Nat) (xs : List Single) :
    ZeroPadded 4 sizes (b.withElements l sizes xs) l := by
  intro j _ hpadding
  rw [withElements_eq_placed, getD_placed_of_not_covers (fun e => length_of_mem_zip), getD_zeros]
  exact fun e he => hpadding e.1 ((mem_zip_visited_iff sizes _ e).1 he).1

/-! ## Checked accesses -/

/-- `elementsAt` with every offset and every access checked. -/
def elementsAt? (b : Bytes) (l : Layout) (sizes : List Nat) : List Index → Option (List Single)
  | [] => some []
  | index :: indices =>
    (l.offset? sizes index).bind fun i =>
      b.singles[i]?.bind fun x => (b.elementsAt? l sizes indices).map (x :: ·)

/-- `putElementsAt` with every offset and every access checked. -/
def putElementsAt? (b : Bytes) (l : Layout) (sizes : List Nat) :
    List Index → List Single → Option Bytes
  | index :: indices, x :: xs =>
    (start? 4 l sizes index).bind fun i =>
      (b.overwrite? i x.toBytes).bind fun b => b.putElementsAt? l sizes indices xs
  | _, _ => some b

/-- `elements` with every offset and every access checked. -/
def elements? (b : Bytes) (l : Layout) (sizes : List Nat) : Option (List Single) :=
  b.elementsAt? l sizes (Index.visited sizes)

/-- `withElements` with every offset and every access checked. -/
def withElements? (b : Bytes) (l : Layout) (sizes : List Nat) (xs : List Single) : Option Bytes :=
  (zeros b.size).putElementsAt? l sizes (Index.visited sizes) xs

theorem elementsAt?_eq_some (h : Spans 4 sizes b l) {indices : List Index}
    (hin : ∀ index ∈ indices, Index.InBounds sizes index) :
    b.elementsAt? l sizes indices = some (b.elementsAt l sizes indices) := by
  induction indices with
  | nil => rfl
  | cons index indices ih =>
    obtain ⟨hfirst, hrest⟩ := List.forall_mem_cons.1 hin
    obtain ⟨total, htotal, -⟩ := h.counted
    obtain ⟨-, hend⟩ := h.start?_eq_some hfirst
    have hread : b.singles[l.offset sizes index]? = some (b.single (l.offset sizes index)) := by
      have hlt : l.offset sizes index < b.size / 4 := by omega
      simp [singles, hlt]
    rw [elementsAt?, Layout.offset?_eq_some h.fitsRank htotal hfirst, Option.bind_some, hread,
      Option.bind_some, ih hrest]
    rfl

theorem elements?_eq_some (h : Spans 4 sizes b l) :
    b.elements? l sizes = some (b.elements l sizes) :=
  elementsAt?_eq_some h fun index hindex => (Index.mem_visited_iff sizes index).1 hindex

theorem putElementsAt?_eq_some (h : Spans 4 sizes b l) {indices : List Index}
    (hin : ∀ index ∈ indices, Index.InBounds sizes index) (xs : List Single) :
    b.putElementsAt? l sizes indices xs = some (b.putElementsAt l sizes indices xs) := by
  induction indices generalizing b xs with
  | nil => rfl
  | cons index indices ih => cases xs with
    | nil => rfl
    | cons x xs =>
      obtain ⟨hfirst, hrest⟩ := List.forall_mem_cons.1 hin
      obtain ⟨hstart, hend⟩ := h.start?_eq_some hfirst
      have hwrite : b.overwrite? (l.offset sizes index * 4) x.toBytes =
          some (b.overwrite (l.offset sizes index * 4) x.toBytes) := if_pos hend
      rw [putElementsAt?, hstart, Option.bind_some, hwrite, Option.bind_some,
        ih (h.of_size (size_overwrite _ _ _)) hrest, putElementsAt, Nat.mul_comm]

theorem withElements?_eq_some (h : Spans 4 sizes b l) (xs : List Single) :
    b.withElements? l sizes xs = some (b.withElements l sizes xs) :=
  putElementsAt?_eq_some (h.of_size (size_zeros _))
    (fun index hindex => (Index.mem_visited_iff sizes index).1 hindex) xs

end Bytes

namespace Store

/-- A memory of `f32` elements has four bytes for each element of the layout. -/
theorem Fits.size_eq {s : Store} {m : Memory} (h : s.Fits m) (htype : m.desc.elementType = .f32)
    {sizes : List Nat} (hshape : m.desc.shape = .ofSizes sizes) :
    (s.contents m).size = 4 * Index.volume (m.desc.layout.physicalSizes sizes) := by
  obtain ⟨-, hsize⟩ := requiredBytes_size h
  rw [hsize, htype, Descriptor.sizes_of_shape hshape, Nat.mul_comm]
  rfl

theorem Fits.fitsRank {s : Store} {m : Memory} (h : s.Fits m) {sizes : List Nat}
    (hshape : m.desc.shape = .ofSizes sizes) : m.desc.layout.fitsRank sizes.length = true := by
  obtain ⟨hfit, -⟩ := requiredBytes_size h
  rw [Descriptor.sizes_of_shape hshape] at hfit
  exact hfit

/-- The size of a memory that exists is in range. -/
theorem Fits.size_lt {s : Store} {m : Memory} (h : s.Fits m) :
    (s.contents m).size < sizeLimit := by
  obtain ⟨total, -, hbytes⟩ := (Descriptor.spans_of_requiredBytes h).counted
  exact (times?_eq_some.1 hbytes).2

/-- The logical element of a memory at an index. -/
def element (s : Store) (m : Memory) (index : Index) : Single :=
  (s.contents m).single (m.desc.layout.offset m.desc.sizes index)

theorem elements_eq {s : Store} {m : Memory} {sizes : List Nat}
    (hshape : m.desc.shape = .ofSizes sizes) :
    (s.contents m).elements m.desc.layout sizes = (Index.visited sizes).map (s.element m) := by
  unfold Bytes.elements Bytes.elementsAt element
  rw [Descriptor.sizes_of_shape hshape]

/-- Reading a memory yields its logical elements in row-major order. -/
theorem read_eq_ok_iff (s : Store) (m : Memory) (xs : List Single) : s.read m = .ok xs ↔
    m.desc.elementType = .f32 ∧ ∃ sizes, m.desc.shape = .ofSizes sizes ∧
      xs = (Index.visited sizes).map (s.element m) := by
  unfold read
  simp only [← Shape.sizes?_eq_some_iff]
  cases hsizes : m.desc.shape.sizes? with
  | none => simp
  | some sizes =>
    have helements := elements_eq (s := s) ((Shape.sizes?_eq_some_iff _ _).1 hsizes)
    simp only [Option.some.injEq, exists_eq_left']
    by_cases htype : m.desc.elementType = .f32
    · simp only [htype, if_true, Except.ok.injEq, helements, true_and]
      exact eq_comm
    · simp [htype]

theorem SameElements.element {s s' : Store} {m m' : Memory} (h : s.SameElements m s' m')
    (htype : m.desc.elementType = .f32) (hshape : m'.desc.shape = m.desc.shape) {index : Index}
    (hin : Index.InBounds m.desc.sizes index) : s.element m index = s'.element m' index := by
  have hblock := h index hin
  unfold Bytes.element at hblock
  rw [htype] at hblock
  have hsizes : m'.desc.sizes = m.desc.sizes := by
    unfold Descriptor.sizes
    rw [hshape]
  unfold Store.element Bytes.single
  rw [hsizes, Nat.mul_comm, Nat.mul_comm 4]
  exact congrArg Single.ofBytes hblock

/-- Every logical element of a memory is one of those that are read in physical order. -/
theorem offset_lt_singles {s : Store} {m : Memory} (hfits : s.Fits m)
    (htype : m.desc.elementType = .f32) {sizes : List Nat} (hshape : m.desc.shape = .ofSizes sizes)
    {index : Index} (hin : Index.InBounds sizes index) :
    m.desc.layout.offset sizes index < (s.contents m).singles.size := by
  have hlt := Layout.offset_lt (hfits.fitsRank hshape) hin
  have hsize := hfits.size_eq htype hshape
  rw [Bytes.size_singles]
  omega

/-- An element is read in physical order where the layout has it. -/
theorem getD_singles {s : Store} {m : Memory} (hfits : s.Fits m)
    (htype : m.desc.elementType = .f32) {sizes : List Nat} (hshape : m.desc.shape = .ofSizes sizes)
    {index : Index} (hin : Index.InBounds sizes index) :
    (s.contents m).singles.getD (m.desc.layout.offset sizes index) .zero = s.element m index := by
  rw [Bytes.getD_singles (offset_lt_singles hfits htype hshape hin), element,
    Descriptor.sizes_of_shape hshape]

/-! ## Typed writes -/

theorem write_eq_ok_iff (s s' : Store) (m : Memory) (xs : List Single) :
    s.write m xs = .ok s' ↔ m.desc.elementType = .f32 ∧ ∃ sizes, m.desc.shape = .ofSizes sizes ∧
      xs.length = (product? sizes).getD 0 ∧
      s' = s.put m.cell ((s.contents m).withElements m.desc.layout sizes xs) := by
  unfold write
  simp only [← Shape.sizes?_eq_some_iff]
  by_cases htype : m.desc.elementType = .f32
  · rw [if_neg (not_not_intro htype)]
    cases hsizes : m.desc.shape.sizes? with
    | none => simp
    | some sizes =>
      have hcount : m.desc.shape.elementCount? = product? sizes := by
        rw [Shape.elementCount?, hsizes, Option.bind_some]
      simp only [hcount, htype, Option.some.injEq, exists_eq_left', true_and]
      by_cases hlen : xs.length = (product? sizes).getD 0
      · rw [if_neg (not_not_intro hlen), Except.ok.injEq]
        exact ⟨fun h => ⟨hlen, h.symm⟩, fun h => h.2.symm⟩
      · rw [if_pos hlen]
        simp [hlen]
  · rw [if_pos htype]
    simp [htype]

/-- The checked product is the number of indices of a memory that exists: with positive extents it
    is no larger than the buffer, and otherwise there are no indices and it is zero or absent. -/
theorem Fits.elementCount_eq {s : Store} {m : Memory} (h : s.Fits m) {sizes : List Nat}
    (hshape : m.desc.shape = .ofSizes sizes) : (product? sizes).getD 0 = Index.volume sizes := by
  cases hproduct : product? sizes with
  | some n => exact (product?_eq_some hproduct).1
  | none =>
    rw [Option.getD_none]
    refine Eq.symm (Nat.eq_zero_of_not_pos fun hvolume => ?_)
    have hpos : ∀ n ∈ sizes, 0 < n := fun n hn => Nat.pos_of_ne_zero fun hzero =>
      Nat.ne_of_gt hvolume ((Index.volume_eq_zero_iff sizes).2
        (List.any_eq_true.2 ⟨n, hn, by simp [hzero]⟩))
    obtain ⟨total, htotal, -⟩ := (Descriptor.spans_of_requiredBytes h).counted
    rw [Descriptor.sizes_of_shape hshape] at htotal
    obtain ⟨htotal, hlimit⟩ := product?_eq_some htotal
    have hrange : 1 * Index.volume sizes < sizeLimit :=
      calc 1 * Index.volume sizes = Index.volume sizes := Nat.one_mul _
        _ ≤ Index.volume (m.desc.layout.physicalSizes sizes) :=
          Layout.volume_le_volume_physicalSizes (h.fitsRank hshape)
        _ < sizeLimit := htotal ▸ hlimit
    have hsome := productFrom?_of_pos hpos hrange
    rw [← product?, hproduct] at hsome
    cases hsome

section

variable {s s' : Store} {m : Memory} {xs : List Single} {sizes : List Nat}

/-- A memory takes as many elements as there are indices. -/
theorem exists_write_iff (h : s.Fits m) (htype : m.desc.elementType = .f32)
    (hshape : m.desc.shape = .ofSizes sizes) :
    (∃ s', s.write m xs = .ok s') ↔ xs.length = Index.volume sizes := by
  simp only [write_eq_ok_iff, ← h.elementCount_eq hshape]
  constructor
  · rintro ⟨s', -, sizes', hshape', hlen, -⟩
    rwa [Shape.ofSizes_injective (hshape.symm.trans hshape')]
  · intro hlen
    exact ⟨_, htype, sizes, hshape, hlen, rfl⟩

theorem contents_write (hshape : m.desc.shape = .ofSizes sizes) (hwrite : s.write m xs = .ok s') :
    s'.contents m = (s.contents m).withElements m.desc.layout sizes xs := by
  obtain ⟨-, sizes', hshape', -, rfl⟩ := (write_eq_ok_iff s s' m xs).1 hwrite
  rw [Shape.ofSizes_injective (hshape.symm.trans hshape')]
  exact contents_put (Bytes.size_withElements _ _ _ _)

theorem element_write (h : s.Fits m) (hshape : m.desc.shape = .ofSizes sizes)
    (hwrite : s.write m xs = .ok s') {index : Index} (hin : Index.InBounds sizes index) :
    xs[Index.position sizes index]? = some (s'.element m index) := by
  obtain ⟨htype, -⟩ := (write_eq_ok_iff s s' m xs).1 hwrite
  have hlen := (exists_write_iff h htype hshape).1 ⟨s', hwrite⟩
  have hlt : Index.position sizes index < xs.length := hlen ▸ Index.position_lt hin
  have hx := List.getElem?_eq_getElem hlt
  have hsize := h.size_eq htype hshape
  rw [element, contents_write hshape hwrite, Descriptor.sizes_of_shape hshape,
    Bytes.single_withElements (h.fitsRank hshape) (hsize.trans (Nat.mul_comm _ _)) hin hx, hx]

/-- What is written is read again. -/
theorem read_write (h : s.Fits m) (hwrite : s.write m xs = .ok s') : s'.read m = .ok xs := by
  obtain ⟨htype, sizes, hshape, -⟩ := (write_eq_ok_iff s s' m xs).1 hwrite
  have hlen := (exists_write_iff h htype hshape).1 ⟨s', hwrite⟩
  have hsize := h.size_eq htype hshape
  unfold read
  rw [hshape, Shape.sizes?_ofSizes]
  dsimp only
  rw [if_pos htype, contents_write hshape hwrite,
    Bytes.elements_withElements (h.fitsRank hshape) (hsize.trans (Nat.mul_comm _ _)) hlen]

theorem zeroPadded_write (hwrite : s.write m xs = .ok s') : s'.ZeroPadded m := by
  obtain ⟨htype, sizes, hshape, -⟩ := (write_eq_ok_iff s s' m xs).1 hwrite
  rw [ZeroPadded, contents_write hshape hwrite, Descriptor.sizes_of_shape hshape, htype]
  exact Bytes.zeroPadded_withElements _ _ _ _

end

end Store

end KernelDispatch
