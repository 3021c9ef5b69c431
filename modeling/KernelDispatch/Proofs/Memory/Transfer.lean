import KernelDispatch.Proofs.Memory.Embedding

/-
  What a conversion does to a store, and that it does it in bounds. `Bytes.rearranged?` is
  `Bytes.rearranged` with every offset and every access to a slice checked; no check fails between
  buffers that have the sizes their descriptors ask for (`moved?_eq_some`). A conversion between
  different memories moves the logical elements and touches nothing else, so along a chain of
  conversions the elements stay what they were (`convertAlong_sameElements`); all of this is
  `convert_moves_tensor`.
-/

namespace KernelDispatch

namespace Bytes

/-! ## Checked accesses -/

/-- The `width` bytes from `start` on, absent when they reach beyond the buffer. -/
def slice? (b : Bytes) (start width : Nat) : Option (List UInt8) :=
  if start + width ≤ b.size then some (b.block start width) else none

/-- Overwrites the bytes from `start` on, absent when they reach beyond the buffer. -/
def overwrite? (b : Bytes) (start : Nat) (xs : List UInt8) : Option Bytes :=
  if start + xs.length ≤ b.size then some (b.overwrite start xs) else none

/-- The first byte of a logical element, absent when it is out of range. -/
def start? (width : Nat) (l : Layout) (sizes : List Nat) (index : Index) : Option Nat :=
  (l.offset? sizes index).bind fun i => times? i width

/-- `copyElementsAt` with every offset and every access checked. -/
def copyElementsAt? (width : Nat) (sizes : List Nat) (source : Bytes) (l l' : Layout) :
    List Index → Bytes → Option Bytes
  | [], target => some target
  | index :: indices, target =>
    (start? width l sizes index).bind fun i =>
      (start? width l' sizes index).bind fun j =>
        (source.slice? i width).bind fun xs =>
          (target.overwrite? j xs).bind fun target =>
            copyElementsAt? width sizes source l l' indices target

/-- `rearranged` with every offset and every access checked. -/
def rearranged? (width : Nat) (sizes : List Nat) (source : Bytes) (l : Layout) (target : Bytes)
    (l' : Layout) : Option Bytes :=
  if l = l' then
    (source.slice? 0 target.size).bind fun xs => target.overwrite? 0 xs
  else
    copyElementsAt? width sizes source l l' (Index.visited sizes)
      (if l'.isDense sizes then target else zeros target.size)

/-- The buffer has the size of a tensor of these sizes in this layout. -/
structure Spans (width : Nat) (sizes : List Nat) (b : Bytes) (l : Layout) : Prop where
  fitsRank : l.fitsRank sizes.length = true
  counted : ∃ total, l.elementCount? sizes = some total ∧ times? total width = some b.size

variable {width : Nat} {sizes : List Nat} {source target : Bytes} {l l' : Layout}

theorem Spans.of_size {b b' : Bytes} (h : Spans width sizes b l) (hsize : b'.size = b.size) :
    Spans width sizes b' l := ⟨h.fitsRank, by rw [hsize]; exact h.counted⟩

/-- The slice of a logical element is found without leaving the range, and lies in the buffer. -/
theorem Spans.start?_eq_some {b : Bytes} (h : Spans width sizes b l) {index : Index}
    (hin : Index.InBounds sizes index) :
    start? width l sizes index = some (l.offset sizes index * width) ∧
      l.offset sizes index * width + width ≤ b.size := by
  obtain ⟨total, htotal, htimes⟩ := h.counted
  obtain ⟨hsize, hrange⟩ := times?_eq_some.1 htimes
  obtain ⟨hvolume, -⟩ := product?_eq_some htotal
  have hoffset : l.offset sizes index < total := hvolume ▸ Layout.offset_lt h.fitsRank hin
  have hend : l.offset sizes index * width + width ≤ b.size :=
    calc l.offset sizes index * width + width
        = (l.offset sizes index + 1) * width := (Nat.succ_mul _ _).symm
      _ ≤ total * width := Nat.mul_le_mul_right _ hoffset
      _ = b.size := hsize
  have hstart : l.offset sizes index * width < sizeLimit := by omega
  refine ⟨?_, hend⟩
  rw [start?, Layout.offset?_eq_some h.fitsRank htotal hin, Option.bind_some]
  exact times?_eq_some.2 ⟨rfl, hstart⟩

theorem copyElementsAt?_eq_some (hsource : Spans width sizes source l) {indices : List Index}
    (hin : ∀ index ∈ indices, Index.InBounds sizes index) (htarget : Spans width sizes target l') :
    copyElementsAt? width sizes source l l' indices target =
      some (copyElementsAt width sizes source l l' indices target) := by
  induction indices generalizing target with
  | nil => rfl
  | cons index indices ih =>
    obtain ⟨hfirst, hrest⟩ := List.forall_mem_cons.1 hin
    obtain ⟨hi, hread⟩ := hsource.start?_eq_some hfirst
    obtain ⟨hj, hwrite⟩ := htarget.start?_eq_some hfirst
    have hslice : source.slice? (l.offset sizes index * width) width =
        some (source.block (l.offset sizes index * width) width) := if_pos hread
    have hover : ∀ xs : List UInt8, xs.length = width →
        target.overwrite? (l'.offset sizes index * width) xs =
          some (target.overwrite (l'.offset sizes index * width) xs) :=
      fun xs hxs => if_pos (by rw [hxs]; exact hwrite)
    rw [copyElementsAt?, hi, hj, Option.bind_some, Option.bind_some, hslice, Option.bind_some,
      hover _ (length_block _ _ _), Option.bind_some, copyElementsAt]
    exact ih hrest (htarget.of_size (size_overwrite _ _ _))

theorem block_zero_size (b : Bytes) : b.block 0 b.size = b.toList := by
  refine List.ext_getElem (by simp) fun i hi hi' => ?_
  have hlt : i < b.size := by simpa using hi'
  simp [block, Array.getD_eq_getD_getElem?, hlt]

/-- Between buffers of the sizes that their layouts ask for, everything is in bounds. -/
theorem rearranged?_eq_some (hsource : Spans width sizes source l)
    (htarget : Spans width sizes target l') :
    rearranged? width sizes source l target l' =
      some (rearranged width sizes source l target l') := by
  unfold rearranged? rearranged
  split
  · rename_i hlayout
    subst hlayout
    have hsize : target.size = source.size := by
      obtain ⟨total, htotal, htimes⟩ := hsource.counted
      obtain ⟨total', htotal', htimes'⟩ := htarget.counted
      rw [htotal, Option.some.injEq] at htotal'
      rw [← htotal', htimes, Option.some.injEq] at htimes'
      exact htimes'.symm
    have hslice : source.slice? 0 target.size = some source.toList := by
      rw [slice?, hsize, if_pos (by omega), block_zero_size]
    rw [hslice, Option.bind_some]
    exact if_pos (by rw [Array.length_toList]; omega)
  · refine copyElementsAt?_eq_some hsource (fun i hi => (Index.mem_visited_iff sizes i).1 hi) ?_
    split
    · exact htarget
    · exact htarget.of_size (size_zeros _)

end Bytes

theorem Descriptor.spans_of_requiredBytes {d : Descriptor} {b : Bytes}
    (h : d.requiredBytes = .ok b.size) :
    Bytes.Spans d.elementType.width d.sizes b d.layout := by
  obtain ⟨hformed, hstatic, hbytes⟩ := (requiredBytes_eq_ok_iff d _).1 h
  obtain ⟨hfit, -⟩ := Store.requiredBytes_size h
  obtain ⟨sizes, hshape⟩ := (Shape.isStatic_iff _).1 hstatic
  have hsizes : d.sizes = sizes := by
    rw [Descriptor.sizes, hshape, Shape.sizes?_ofSizes, Option.getD_some]
  refine ⟨hfit, ?_⟩
  simp only [byteSize?, elementCount?, Option.bind_eq_some_iff] at hbytes
  obtain ⟨total, ⟨sizes', hsizes', hcount⟩, htimes⟩ := hbytes
  rw [hshape, Shape.sizes?_ofSizes, Option.some.injEq] at hsizes'
  rw [if_pos hformed, ← hsizes', ← hsizes] at hcount
  exact ⟨total, hcount, htimes⟩

namespace Store

theorem create_eq_ok_iff (s : Store) (d : Descriptor) (m : Memory) (s' : Store) :
    s.create d = .ok (m, s') ↔
      ∃ n, d.requiredBytes = .ok n ∧ m = ⟨d, s.cells.size⟩ ∧ s' = (s.push (Bytes.zeros n)).2 := by
  unfold create
  cases d.requiredBytes with
  | error e =>
    show Except.error e = _ ↔ _
    simp
  | ok n =>
    show Except.ok (_, _) = _ ↔ _
    simp only [Except.ok.injEq, Prod.mk.injEq, exists_eq_left']
    exact ⟨fun h => ⟨h.1.symm, h.2.symm⟩, fun h => ⟨h.1.symm, h.2.symm⟩⟩

/-- A buffer that is adopted is emptied first, so nothing of it remains. -/
theorem adopt_eq_create (s : Store) (d : Descriptor) (buffer : Bytes) :
    s.adopt d buffer = s.create d := by
  have hempty : buffer.take 0 = #[] := by simp
  unfold adopt create
  simp only [hempty, Bytes.resized_empty]

/-- A new memory has the bytes that its descriptor asks for. -/
theorem fits_create {s s' : Store} {d : Descriptor} {m : Memory} (h : s.create d = .ok (m, s')) :
    s'.Fits m := by
  obtain ⟨n, hsize, rfl, rfl⟩ := (s.create_eq_ok_iff d m s').1 h
  show d.requiredBytes = .ok ((s.push (Bytes.zeros n)).2.bytes s.cells.size).size
  rw [bytes_push, if_pos rfl, Bytes.size_zeros, hsize]

/-- What is put into the newest cell takes the place of what it was made with. -/
theorem put_push (s : Store) (b b' : Bytes) :
    (s.push b).2.put s.cells.size b' = (s.push b').2 := by
  simp only [push, put, Store.mk.injEq]
  refine Array.ext_getElem? fun i => ?_
  simp only [Array.getElem?_setIfInBounds, Array.getElem?_push, Array.size_push]
  grind

/-! ## One conversion -/

/-- `moved` with every offset and every access checked. -/
def moved? (s : Store) (source target : Memory) : Option Bytes :=
  (s.contents source).rearranged? source.desc.elementType.width source.desc.sizes
    source.desc.layout (s.contents target) target.desc.layout

theorem moved?_eq_some {s : Store} {source target : Memory} (hsource : s.Fits source)
    (htarget : s.Fits target) (hcheck : source.desc.checkConversion target.desc = .ok ()) :
    s.moved? source target = some (s.moved source target) := by
  obtain ⟨htype, hshape, -⟩ := (Descriptor.checkConversion_eq_ok_iff _ _).1 hcheck
  have hspans := Descriptor.spans_of_requiredBytes htarget
  rw [← htype, show target.desc.sizes = source.desc.sizes by
    rw [Descriptor.sizes, ← hshape, Descriptor.sizes]] at hspans
  exact Bytes.rearranged?_eq_some (Descriptor.spans_of_requiredBytes hsource) hspans

/-- A memory receives what is put into it. A cell that was never made has no bytes, and receives
    none. -/
theorem contents_put {s : Store} {m : Memory} {b : Bytes} (hb : b.size = (s.contents m).size) :
    (s.put m.cell b).contents m = b := by
  show (s.put m.cell b).bytes m.cell = b
  rw [bytes_put]
  split
  · rfl
  · rename_i hcell
    have hmissing : s.bytes m.cell = #[] := by
      have hout : s.cells.size ≤ m.cell := by simpa using hcell
      simp [bytes, Array.getD_eq_getD_getElem?, hout]
    rw [contents, hmissing] at hb
    rw [hmissing, Array.eq_empty_of_size_eq_zero hb]

theorem Fits.of_convert {s s' : Store} {source target m : Memory}
    (h : s.convert source target = .ok s') (hm : s.Fits m) : s'.Fits m := by
  obtain ⟨-, hsize⟩ := size_convert h
  unfold Fits contents at hm ⊢
  rw [hsize]
  exact hm

/-- A conversion is refused for its descriptors, whatever the bytes. -/
theorem exists_convert_iff (s : Store) (source target : Memory) :
    (∃ s', s.convert source target = .ok s') ↔
      source.desc.elementType = target.desc.elementType ∧
      source.desc.shape = target.desc.shape ∧ source.desc.isStatic = true ∧
      source.desc.isWellFormed = true ∧ target.desc.isWellFormed = true := by
  have hcheck := Descriptor.checkConversion_eq_ok_iff source.desc target.desc
  constructor
  · rintro ⟨s', h⟩
    obtain ⟨hok, -⟩ := convert_cases h
    obtain ⟨htype, hshape, hstatic, hformed, -, hformed'⟩ := hcheck.1 hok
    exact ⟨htype, hshape, hstatic, hformed, hformed'⟩
  · rintro ⟨htype, hshape, hstatic, hformed, hformed'⟩
    have hstatic' : target.desc.isStatic = true := by
      rw [Descriptor.isStatic, ← hshape]
      exact hstatic
    have hok := hcheck.2 ⟨htype, hshape, hstatic, hformed, hstatic', hformed'⟩
    by_cases hcell : source.cell = target.cell
    · refine ⟨s, ?_⟩
      unfold convert
      rw [hok]
      exact if_pos hcell
    · exact ⟨_, convert_eq_ok hok hcell⟩

/-- A conversion between different memories moves the logical elements, clears padding if the
    layouts differ, and accesses slices in bounds only. -/
theorem convert_spec {s s' : Store} {source target : Memory} (hsource : s.Fits source)
    (htarget : s.Fits target) (hne : source.cell ≠ target.cell)
    (h : s.convert source target = .ok s') :
    s'.SameElements target s source ∧
      (source.desc.layout ≠ target.desc.layout → s'.ZeroPadded target) ∧
      s.moved? source target = some (s'.contents target) := by
  obtain ⟨hcheck, ⟨heq, -⟩ | ⟨-, rfl⟩⟩ := convert_cases h
  · exact absurd heq hne
  · obtain ⟨htype, hshape, -⟩ := (Descriptor.checkConversion_eq_ok_iff _ _).1 hcheck
    have hmoved := contents_put (m := target) (size_moved s source target)
    refine ⟨sameElements_of_moved hcheck hsource htarget hmoved, fun hlayout => ?_, ?_⟩
    · exact (sameElements_of_rearranged ⟨htype.symm, hshape.symm, hlayout⟩ htarget hmoved).2
    · rw [hmoved, moved?_eq_some hsource htarget hcheck]

/-! ## Chains of conversions -/

/-- Converts from memory to memory, until a conversion is refused. -/
def convertAlong (s : Store) (source : Memory) : List Memory → Except ConversionError Store
  | [] => .ok s
  | m :: ms =>
    match s.convert source m with
    | .ok s' => s'.convertAlong m ms
    | .error e => .error e

theorem SameElements.trans {s s' s'' : Store} {m m' m'' : Memory} (h : s.SameElements m s' m')
    (h' : s'.SameElements m' s'' m'') (htype : m.desc.elementType = m'.desc.elementType)
    (hshape : m.desc.shape = m'.desc.shape) : s.SameElements m s'' m'' := by
  have hsizes : m.desc.sizes = m'.desc.sizes := by
    rw [Descriptor.sizes, hshape, Descriptor.sizes]
  intro index hin
  rw [h index hin]
  unfold SameElements at h'
  rw [← htype, ← hsizes] at h'
  exact h' index hin

/-- The memories hold tensors of one element type and shape, and no two of them share a cell. -/
structure Interchangeable (s : Store) (source : Memory) (ms : List Memory) : Prop where
  fits : ∀ m ∈ source :: ms, s.Fits m
  elementType : ∀ m ∈ ms, m.desc.elementType = source.desc.elementType
  shape : ∀ m ∈ ms, m.desc.shape = source.desc.shape
  cells : ∀ m ∈ source :: ms, ∀ m' ∈ source :: ms, m.cell = m'.cell → m = m'

/-- The first conversion of a chain succeeds, and the rest is a chain again. -/
theorem Interchangeable.step {s : Store} {source m : Memory} {ms : List Memory}
    (h : Interchangeable s source (m :: ms)) :
    ∃ s', s.convert source m = .ok s' ∧ s'.SameElements m s source ∧
      Interchangeable s' m ms := by
  obtain ⟨htype, htypes⟩ := List.forall_mem_cons.1 h.elementType
  obtain ⟨hshape, hshapes⟩ := List.forall_mem_cons.1 h.shape
  obtain ⟨hsource, hfits⟩ := List.forall_mem_cons.1 h.fits
  have hm := hfits m List.mem_cons_self
  obtain ⟨hformed, hstatic, -⟩ := (Descriptor.requiredBytes_eq_ok_iff _ _).1 hsource
  obtain ⟨hformed', -, -⟩ := (Descriptor.requiredBytes_eq_ok_iff _ _).1 hm
  obtain ⟨s', hconvert⟩ := (exists_convert_iff s source m).2
    ⟨htype.symm, hshape.symm, hstatic, hformed, hformed'⟩
  refine ⟨s', hconvert, ?_, ?_⟩
  · by_cases hcell : source.cell = m.cell
    · -- the memory is in place already
      have heq := h.cells source List.mem_cons_self m
        (List.mem_cons_of_mem _ List.mem_cons_self) hcell
      subst heq
      obtain ⟨-, ⟨-, rfl⟩ | ⟨hne, -⟩⟩ := convert_cases hconvert
      · exact .refl_of_contents rfl
      · exact absurd rfl hne
    · exact (convert_spec hsource hm hcell hconvert).1
  · exact {
      fits := fun m' hm' => .of_convert hconvert (hfits m' hm')
      elementType := fun m' hm' => (htypes m' hm').trans htype.symm
      shape := fun m' hm' => (hshapes m' hm').trans hshape.symm
      cells := fun m' hm' m'' hm'' =>
        h.cells m' (List.mem_cons_of_mem _ hm') m'' (List.mem_cons_of_mem _ hm'') }

/-- A chain of conversions carries the logical elements to its last memory. -/
theorem convertAlong_sameElements {s : Store} {source : Memory} {ms : List Memory}
    (h : Interchangeable s source ms) :
    ∃ s', s.convertAlong source ms = .ok s' ∧ s'.SameElements (ms.getLastD source) s source := by
  induction ms generalizing s source with
  | nil => exact ⟨s, rfl, .refl_of_contents rfl⟩
  | cons m ms ih =>
    obtain ⟨s₁, hconvert, hfirst, hrest⟩ := h.step
    obtain ⟨s', halong, hlast⟩ := ih hrest
    refine ⟨s', ?_, ?_⟩
    · rw [convertAlong, hconvert]
      exact halong
    · have hmem : ms.getLastD m ∈ m :: ms := by
        rw [List.getLastD_eq_getLast?]
        cases hl : ms.getLast? with
        | none => exact List.mem_cons_self
        | some last => exact List.mem_cons_of_mem _ (List.mem_of_getLast? hl)
      rw [List.getLastD_cons]
      refine hlast.trans hfirst ?_ ?_
      · rcases List.mem_cons.1 hmem with heq | hmem
        · rw [heq]
        · exact hrest.elementType _ hmem
      · rcases List.mem_cons.1 hmem with heq | hmem
        · rw [heq]
        · exact hrest.shape _ hmem

/-! ## Conversions move the logical tensor -/

/-- A conversion succeeds just if the descriptors allow it. Between different memories it moves
    every logical element to its place, leaves all other memories alone, clears the padding if the
    layouts differ, and accesses slices in bounds only. A conversion that is refused leaves the
    world as it was, and so do the conversions that would have followed. A chain of conversions
    ends with the logical elements that it began with. -/
theorem convert_moves_tensor (s : Store) (source target : Memory) :
    ((∃ s', s.convert source target = .ok s') ↔
      source.desc.elementType = target.desc.elementType ∧
      source.desc.shape = target.desc.shape ∧ source.desc.isStatic = true ∧
      source.desc.isWellFormed = true ∧ target.desc.isWellFormed = true) ∧
    (s.Fits source → s.Fits target → source.cell ≠ target.cell →
      ∀ s', s.convert source target = .ok s' →
        s'.SameElements target s source ∧
        s'.contents source = s.contents source ∧
        (∀ c, target.cell ≠ c → s'.bytes c = s.bytes c) ∧
        s.moved? source target = some (s'.contents target) ∧
        (source.desc.layout ≠ target.desc.layout → s'.ZeroPadded target)) ∧
    (∀ e, s.convert source target = .error e →
      ∀ (σ : Type) (w : World σ), w.store = s → ∀ (b b' : Bindings) (p : Operand),
        b.get? p = some source → b'.get? p = some target → ∀ ps,
          World.convertOperands b b' (p :: ps) w = (.error (.conversion p e), w)) ∧
    (∀ ms, Interchangeable s source ms →
      ∃ s', s.convertAlong source ms = .ok s' ∧
        s'.SameElements (ms.getLastD source) s source) := by
  refine ⟨exists_convert_iff s source target, fun hsource htarget hne s' h => ?_,
    fun e h σ w hw b b' p hp hp' ps => ?_, fun _ => convertAlong_sameElements⟩
  · obtain ⟨helements, hpadding, hinside⟩ := convert_spec hsource htarget hne h
    exact ⟨helements, bytes_convert h hne.symm, fun c hc => bytes_convert h hc, hinside, hpadding⟩
  · subst hw
    simp only [World.convertOperands, (b.require_eq_ok_iff p source).2 hp,
      (b'.require_eq_ok_iff p target).2 hp', h]

/-- Three channels, one byte each. -/
def threeChannels : Memory := ⟨⟨.u8, .ofSizes [1, 3], .planar⟩, 0⟩

/-- The same tensor in blocks of two channels, with one byte of padding. -/
def threeChannelsBlocked : Memory := ⟨⟨.u8, .ofSizes [1, 3], .blocked 2⟩, 1⟩

/-- The tensor, and a blocked buffer in which every byte is set. -/
def dirtyBlocks : Store := ⟨#[#[1, 2, 3], #[9, 9, 9, 9]]⟩

/-- Into the dirty buffer and back. -/
theorem convert_moves_tensor_dirty :
    dirtyBlocks.Fits threeChannels ∧ dirtyBlocks.Fits threeChannelsBlocked ∧
      (∃ s', dirtyBlocks.convert threeChannels threeChannelsBlocked = .ok s' ∧
        s'.SameElements threeChannelsBlocked dirtyBlocks threeChannels ∧
        s'.ZeroPadded threeChannelsBlocked) ∧
      ∃ s', dirtyBlocks.convertAlong threeChannels [threeChannelsBlocked, threeChannels] = .ok s' ∧
        s'.SameElements threeChannels dirtyBlocks threeChannels := by
  have hsource : dirtyBlocks.Fits threeChannels := rfl
  have htarget : dirtyBlocks.Fits threeChannelsBlocked := rfl
  obtain ⟨hsucceeds, hmoves, -, hchain⟩ :=
    convert_moves_tensor dirtyBlocks threeChannels threeChannelsBlocked
  obtain ⟨s', hconvert⟩ := hsucceeds.2 (by decide)
  obtain ⟨helements, -, -, -, hpadding⟩ := hmoves hsource htarget (by decide) s' hconvert
  refine ⟨hsource, htarget, ⟨s', hconvert, helements, hpadding (by decide)⟩, hchain _ ?_⟩
  exact {
    fits := by simp [hsource, htarget]
    elementType := by decide
    shape := by decide
    cells := by decide }

end Store

end KernelDispatch
