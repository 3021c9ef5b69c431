import KernelDispatch.Proofs.Memory.Singles

/-
  Runs of accesses to memories. An access makes a memory, replaces the bytes of one, or does
  nothing (`Memories.step_perform`); so after any run the memories have the bytes that their
  descriptors ask for and share no cells (`Memories.sound_after`), and what is written through the
  logical elements is read again (`Memories.typed_roundtrip`). A run without raw accesses leaves
  zeros in all padding (`Memories.padding_stays_zero`).
-/

namespace KernelDispatch

/-- A store and the memories that were made in it, in order. -/
structure Memories where
  store : Store := {}
  made : List Memory := []

/-- An access to memories, which are named by the order in which they were made. -/
inductive Access where
  | create (d : Descriptor)
  | createWith (d : Descriptor) (xs : List Single)
  | adopt (d : Descriptor) (buffer : Bytes)
  | write (i : Nat) (xs : List Single)
  | convert (i j : Nat)
  | writePhysical (i : Nat) (xs : Array Single)
  | overwrite (i start : Nat) (bytes : List UInt8)

/-- Whether the access leaves the places of bytes to the layout. -/
def Access.isTyped : Access → Bool
  | writePhysical .. | overwrite .. => false
  | _ => true

/-- What is padding in a buffer for `d` is zero. -/
def Descriptor.ZeroPadded (d : Descriptor) (b : Bytes) : Prop :=
  Bytes.ZeroPadded d.elementType.width d.sizes b d.layout

namespace Memories

/-! ## Accesses -/

/-- Keeps a memory that was made, if it was. -/
def adding (ms : Memories) : Except MemoryError (Memory × Store) → Memories
  | .ok (m, s) => ⟨s, ms.made ++ [m]⟩
  | .error _ => ms

/-- Keeps the bytes that an access left, if it succeeded. -/
def storing {ε : Type} (ms : Memories) : Except ε Store → Memories
  | .ok s => { ms with store := s }
  | .error _ => ms

/-- The memories after an access. One that fails leaves everything as it was. -/
def perform (ms : Memories) : Access → Memories
  | .create d => ms.adding (ms.store.create d)
  | .createWith d xs => ms.adding (ms.store.createWith d xs)
  | .adopt d buffer => ms.adding (ms.store.adopt d buffer)
  | .write i xs =>
    match ms.made[i]? with
    | some m => ms.storing (ms.store.write m xs)
    | none => ms
  | .convert i j =>
    match ms.made[i]?, ms.made[j]? with
    | some source, some target => ms.storing (ms.store.convert source target)
    | _, _ => ms
  | .writePhysical i xs =>
    match ms.made[i]? with
    | some m => ms.storing (ms.store.writePhysical m xs)
    | none => ms
  | .overwrite i start bytes =>
    match ms.made[i]? with
    | some m => { ms with store := ms.store.overwrite m start bytes }
    | none => ms

/-- The memories after a run that starts without any. -/
def after (accesses : List Access) : Memories := accesses.foldl perform {}

/-! ## What an access does -/

/-- Memories have the bytes that their descriptors ask for, each in a cell of its own. -/
structure Sound (ms : Memories) : Prop where
  exist : ∀ m ∈ ms.made, m.cell < ms.store.cells.size
  fits : ∀ m ∈ ms.made, ms.store.Fits m
  apart : ∀ m ∈ ms.made, ∀ m' ∈ ms.made, m.cell = m'.cell → m = m'

/-- All padding is zero. -/
def ZeroPadded (ms : Memories) : Prop := ∀ m ∈ ms.made, ms.store.ZeroPadded m

/-- An access changes nothing, or makes a memory, or replaces the bytes of one. A new memory has
    zeros for padding, and a typed access that replaces bytes keeps the padding zero. -/
inductive Step (ms : Memories) (a : Access) : Memories → Prop
  | same : Step ms a ms
  | made {m : Memory} {b : Bytes} (cell : m.cell = ms.store.cells.size)
    (fits : m.desc.requiredBytes = .ok b.size) (padding : m.desc.ZeroPadded b) :
    Step ms a ⟨(ms.store.push b).2, ms.made ++ [m]⟩
  | replaced {m : Memory} {b : Bytes} (mem : m ∈ ms.made)
    (size : b.size = (ms.store.contents m).size)
    (padding : a.isTyped = true → ms.ZeroPadded → m.desc.ZeroPadded b) :
    Step ms a { ms with store := ms.store.put m.cell b }

variable {ms ms' : Memories} {a : Access}

theorem step_create (d : Descriptor) : ms.Step a (ms.adding (ms.store.create d)) := by
  cases hcreate : ms.store.create d with
  | error e => exact .same
  | ok made =>
    obtain ⟨m, s⟩ := made
    obtain ⟨n, hsize, rfl, rfl⟩ := (ms.store.create_eq_ok_iff d m s).1 hcreate
    exact .made rfl (by rw [Bytes.size_zeros, hsize]) fun j _ _ => Bytes.getD_zeros n j

/-- A memory that is filled at once is made with its elements in place. -/
theorem step_createWith (d : Descriptor) (xs : List Single) :
    ms.Step a (ms.adding (ms.store.createWith d xs)) := by
  unfold Store.createWith
  cases hcreate : ms.store.create d with
  | error e => exact .same
  | ok made =>
    obtain ⟨m, s⟩ := made
    have hfits := Store.fits_create hcreate
    show ms.Step a (ms.adding (s.write m xs >>= fun s => pure (m, s)))
    cases hwrite : s.write m xs with
    | error e => exact .same
    | ok s' =>
      have hpadding := Store.zeroPadded_write hwrite
      obtain ⟨n, -, rfl, rfl⟩ := (ms.store.create_eq_ok_iff d m s).1 hcreate
      obtain ⟨-, sizes, hshape, -, rfl⟩ := (Store.write_eq_ok_iff _ s' _ xs).1 hwrite
      rw [Store.ZeroPadded, Store.contents_write hshape hwrite] at hpadding
      dsimp only at hpadding ⊢
      rw [Store.put_push]
      refine .made rfl ?_ hpadding
      rw [Bytes.size_withElements]
      exact hfits

theorem step_write {i : Nat} {m : Memory} (hm : ms.made[i]? = some m) (xs : List Single) :
    ms.Step a (ms.storing (ms.store.write m xs)) := by
  cases hwrite : ms.store.write m xs with
  | error e => exact .same
  | ok s' =>
    have hpadding := Store.zeroPadded_write hwrite
    obtain ⟨-, sizes, hshape, -, rfl⟩ := (Store.write_eq_ok_iff _ s' m xs).1 hwrite
    rw [Store.ZeroPadded, Store.contents_write hshape hwrite] at hpadding
    exact .replaced (List.mem_of_getElem? hm) (Bytes.size_withElements _ _ _ _)
      fun _ _ => hpadding

/-- Between different layouts a conversion clears the padding of its target. Within one layout it
    copies the padding of its source, which is zero if all padding is. -/
theorem step_convert (h : ms.Sound) {i j : Nat} {source target : Memory}
    (hi : ms.made[i]? = some source) (hj : ms.made[j]? = some target) :
    ms.Step a (ms.storing (ms.store.convert source target)) := by
  have hsource := List.mem_of_getElem? hi
  have htarget := List.mem_of_getElem? hj
  cases hconvert : ms.store.convert source target with
  | error e => exact .same
  | ok s' =>
    obtain ⟨hcheck, ⟨-, rfl⟩ | ⟨-, rfl⟩⟩ := Store.convert_cases hconvert
    · exact .same
    · refine .replaced htarget (Store.size_moved _ _ _) fun _ hzero => ?_
      by_cases hlayout : source.desc.layout = target.desc.layout
      · obtain ⟨hdesc, hmoved⟩ := Store.rearranged_of_layout_eq hcheck (h.fits source hsource)
          hlayout (h.fits target htarget)
        rw [Store.moved, hmoved, ← hdesc]
        exact hzero source hsource
      · obtain ⟨htype, hshape, -⟩ := (Descriptor.checkConversion_eq_ok_iff _ _).1 hcheck
        have hmoved := Store.contents_put (m := target) (Store.size_moved ms.store source target)
        obtain ⟨-, hpadding⟩ := Store.sameElements_of_rearranged
          ⟨htype.symm, hshape.symm, hlayout⟩ (h.fits target htarget) hmoved
        rw [Store.ZeroPadded, hmoved] at hpadding
        exact hpadding

theorem step_writePhysical {i : Nat} {m : Memory} (hm : ms.made[i]? = some m)
    (xs : Array Single) (ha : a.isTyped = false) :
    ms.Step a (ms.storing (ms.store.writePhysical m xs)) := by
  unfold Store.writePhysical
  split
  · exact .same
  · split
    · exact .same
    · rename_i hsize
      refine .replaced (List.mem_of_getElem? hm) ?_ (by simp [ha])
      rw [Bytes.size_ofSingles]
      exact (Decidable.not_not.1 hsize).symm

theorem step_perform (h : ms.Sound) (a : Access) : ms.Step a (ms.perform a) := by
  cases a with
  | create d => exact step_create d
  | createWith d xs => exact step_createWith d xs
  | adopt d buffer =>
    rw [perform, Store.adopt_eq_create]
    exact step_create d
  | write i xs =>
    rw [perform]
    split
    · rename_i hm
      exact step_write hm xs
    · exact .same
  | convert i j =>
    rw [perform]
    split
    · rename_i hi hj
      exact step_convert h hi hj
    · exact .same
  | writePhysical i xs =>
    rw [perform]
    split
    · rename_i hm
      exact step_writePhysical hm xs rfl
    · exact .same
  | overwrite i start bytes =>
    rw [perform]
    split
    · rename_i hm
      exact .replaced (List.mem_of_getElem? hm) (Bytes.size_overwrite _ _ _) nofun
    · exact .same

/-! ## What a run keeps -/

/-- What the bytes of every memory satisfy stays so, if new bytes satisfy it. -/
theorem Sound.forall_push (h : ms.Sound) {P : Descriptor → Bytes → Prop}
    (hold : ∀ m ∈ ms.made, P m.desc (ms.store.contents m)) {m : Memory}
    (hcell : m.cell = ms.store.cells.size) {b : Bytes} (hnew : P m.desc b) :
    ∀ m' ∈ ms.made ++ [m], P m'.desc ((ms.store.push b).2.contents m') := by
  intro m' hm'
  rw [Store.contents, Store.bytes_push]
  rcases List.mem_append.1 hm' with hm' | hm'
  · rw [if_neg (Nat.ne_of_lt (h.exist m' hm'))]
    exact hold m' hm'
  · rw [List.mem_singleton.1 hm', if_pos hcell]
    exact hnew

theorem Sound.forall_put (h : ms.Sound) {P : Descriptor → Bytes → Prop}
    (hold : ∀ m ∈ ms.made, P m.desc (ms.store.contents m)) {m : Memory} (hm : m ∈ ms.made)
    {b : Bytes} (hnew : P m.desc b) :
    ∀ m' ∈ ms.made, P m'.desc ((ms.store.put m.cell b).contents m') := by
  intro m' hm'
  rw [Store.contents, Store.bytes_put]
  split
  · rename_i hcell
    rw [← h.apart m hm m' hm' hcell.1]
    exact hnew
  · exact hold m' hm'

theorem Step.sound (hstep : ms.Step a ms') (h : ms.Sound) : ms'.Sound := by
  have hfits : ∀ m ∈ ms.made, m.desc.requiredBytes = .ok (ms.store.contents m).size := h.fits
  cases hstep with
  | same => exact h
  | @made m b hcell hbytes _ =>
    have hsize : (ms.store.push b).2.cells.size = ms.store.cells.size + 1 := Array.size_push _
    have hbelow : ∀ m' ∈ ms.made, m'.cell ≠ m.cell := fun m' hm' =>
      hcell ▸ Nat.ne_of_lt (h.exist m' hm')
    refine ⟨fun m' hm' => ?_, h.forall_push (P := fun d b => d.requiredBytes = .ok b.size) hfits
      hcell hbytes, fun m' hm' m'' hm'' heq => ?_⟩
    · rw [hsize]
      rcases List.mem_append.1 hm' with hm' | hm'
      · exact Nat.lt_succ_of_lt (h.exist m' hm')
      · rw [List.mem_singleton.1 hm', hcell]
        exact Nat.lt_succ_self _
    · rcases List.mem_append.1 hm' with hm' | hm' <;> rcases List.mem_append.1 hm'' with hm'' | hm''
      · exact h.apart m' hm' m'' hm'' heq
      · exact absurd (heq.trans (congrArg _ (List.mem_singleton.1 hm''))) (hbelow m' hm')
      · exact absurd (heq.symm.trans (congrArg _ (List.mem_singleton.1 hm'))) (hbelow m'' hm'')
      · rw [List.mem_singleton.1 hm', List.mem_singleton.1 hm'']
  | @replaced m b hm hsize _ =>
    have hcells : (ms.store.put m.cell b).cells.size = ms.store.cells.size :=
      Array.size_setIfInBounds
    exact ⟨fun m' hm' => hcells ▸ h.exist m' hm',
      h.forall_put (P := fun d b => d.requiredBytes = .ok b.size) hfits hm
        (hsize ▸ hfits m hm), h.apart⟩

theorem Step.zeroPadded (hstep : ms.Step a ms') (h : ms.Sound) (ha : a.isTyped = true)
    (hzero : ms.ZeroPadded) : ms'.ZeroPadded := by
  cases hstep with
  | same => exact hzero
  | made hcell _ hpadding => exact h.forall_push (P := Descriptor.ZeroPadded) hzero hcell hpadding
  | replaced hm _ hpadding =>
    exact h.forall_put (P := Descriptor.ZeroPadded) hzero hm (hpadding ha hzero)

theorem sound_empty : Sound {} := ⟨by simp, by simp, by simp⟩

theorem sound_after (accesses : List Access) : (after accesses).Sound := by
  suffices hfold : ∀ ms : Memories, ms.Sound → (accesses.foldl perform ms).Sound from
    hfold {} sound_empty
  induction accesses with
  | nil => exact fun _ h => h
  | cons a accesses ih => exact fun ms h => ih _ ((step_perform h a).sound h)

theorem zeroPadded_after {accesses : List Access} (htyped : ∀ a ∈ accesses, a.isTyped = true) :
    (after accesses).ZeroPadded := by
  suffices hfold : ∀ ms : Memories, ms.Sound → ms.ZeroPadded →
      (accesses.foldl perform ms).ZeroPadded from hfold {} sound_empty (by simp [ZeroPadded])
  induction accesses with
  | nil => exact fun _ _ hzero => hzero
  | cons a accesses ih =>
    obtain ⟨ha, htyped⟩ := List.forall_mem_cons.1 htyped
    intro ms h hzero
    have hstep := step_perform h a
    exact ih htyped _ (hstep.sound h) (hstep.zeroPadded h ha hzero)

/-! ## Typed access -/

/-- Typed access to any memory of `f32` elements that was ever made is a round trip. A write takes
    as many elements as there are indices; a read then returns them, each at the position of its
    index, and the padding is zero. A write that fails changes nothing, and to write back what was
    read leaves every logical element as it is. No access leaves the buffer. -/
theorem typed_roundtrip (accesses : List Access) {m : Memory} (hm : m ∈ (after accesses).made)
    (htype : m.desc.elementType = .f32) :
    let s := (after accesses).store
    ∃ sizes, m.desc.shape = .ofSizes sizes ∧
      (∀ xs, (∃ s', s.write m xs = .ok s') ↔
        xs.length = Set.ncard {index | Index.InBounds sizes index}) ∧
      (∀ xs s', s.write m xs = .ok s' →
        s'.read m = .ok xs ∧
        (∀ index, Index.InBounds sizes index →
          xs[Index.position sizes index]? = some (s'.element m index)) ∧
        s'.ZeroPadded m ∧
        (s.contents m).withElements? m.desc.layout sizes xs = some (s'.contents m)) ∧
      (∀ i xs e, (after accesses).made[i]? = some m → s.write m xs = .error e →
        (after accesses).perform (.write i xs) = after accesses) ∧
      ∃ xs s', s.read m = .ok xs ∧
        (s.contents m).elements? m.desc.layout sizes = some xs ∧ s.write m xs = .ok s' ∧
        ∀ index, Index.InBounds sizes index → s'.element m index = s.element m index := by
  intro s
  have hfits : s.Fits m := (sound_after accesses).fits m hm
  obtain ⟨sizes, hsizes, -, -⟩ := Descriptor.requiredBytes_eq_ok hfits
  have hshape := (Shape.sizes?_eq_some_iff _ _).1 hsizes
  have hspans : Bytes.Spans 4 sizes (s.contents m) m.desc.layout := by
    have := Descriptor.spans_of_requiredBytes hfits
    rwa [htype, Descriptor.sizes_of_shape hshape] at this
  refine ⟨sizes, hshape, fun xs => ?_, fun xs s' hwrite => ?_, fun i xs e hi herror => ?_, ?_⟩
  · rw [Index.ncard_inBounds]
    exact Store.exists_write_iff hfits htype hshape
  · refine ⟨Store.read_write hfits hwrite,
      fun index hin => Store.element_write hfits hshape hwrite hin,
      Store.zeroPadded_write hwrite, ?_⟩
    rw [Bytes.withElements?_eq_some hspans, Store.contents_write hshape hwrite]
  · simp only [perform, hi]
    rw [herror]
    rfl
  · have hread : s.read m = .ok ((Index.visited sizes).map (s.element m)) :=
      (s.read_eq_ok_iff m _).2 ⟨htype, sizes, hshape, rfl⟩
    have hlen : ((Index.visited sizes).map (s.element m)).length = Index.volume sizes := by
      rw [List.length_map, Index.length_visited]
    obtain ⟨s', hwrite⟩ := (Store.exists_write_iff hfits htype hshape).2 hlen
    refine ⟨_, s', hread, ?_, hwrite, fun index hin => ?_⟩
    · rw [Bytes.elements?_eq_some hspans, ← Store.elements_eq hshape]
    · have hx := Store.element_write hfits hshape hwrite hin
      rw [List.getElem?_map, (Index.getElem?_visited sizes _ index).2 ⟨hin, rfl⟩,
        Option.map_some] at hx
      exact (Option.some.inj hx).symm

/-- Three channels in blocks of two; the last place is padding. -/
def threeChannels : Memory := ⟨⟨.f32, .ofSizes [1, 3], .blocked 2⟩, 0⟩

/-- Made, and then written physically, the padding included. -/
def overfilled : List Access := [.create threeChannels.desc, .writePhysical 0 #[9, 9, 9, 9]]

/-- A tensor without elements, the product of whose extents leaves the range on the way. -/
def noElements : Memory :=
  ⟨⟨.f32, .ofSizes [1099511627776, 1099511627776, 0], .channelsLast⟩, 0⟩

/-- Three channels take three elements and clear the place behind them; the tensor without elements
    takes none. -/
theorem typed_roundtrip_padded_or_empty :
    ((after overfilled).made = [threeChannels] ∧
      (after overfilled).store.contents threeChannels = Bytes.ofSingles #[9, 9, 9, 9] ∧
      (∀ xs, (∃ s', (after overfilled).store.write threeChannels xs = .ok s') ↔ xs.length = 3) ∧
      ∃ s', (after overfilled).store.write threeChannels [1, 2, 3] = .ok s' ∧
        s'.read threeChannels = .ok [1, 2, 3] ∧ s'.ZeroPadded threeChannels ∧
        s'.contents threeChannels = Bytes.ofSingles #[1, 2, 3, 0]) ∧
    (after [.create noElements.desc]).made = [noElements] ∧
      noElements.desc.shape.elementCount? = none ∧
      ∀ xs, (∃ s', (after [.create noElements.desc]).store.write noElements xs = .ok s') ↔
        xs = [] := by
  constructor
  · have hmade : (after overfilled).made = [threeChannels] := by rfl
    have hbefore : (after overfilled).store.contents threeChannels =
        Bytes.ofSingles #[9, 9, 9, 9] := by rfl
    obtain ⟨sizes, hshape, hcount, hwritten, -⟩ :=
      typed_roundtrip overfilled (hmade ▸ List.mem_singleton_self _) rfl
    cases Shape.ofSizes_injective hshape
    have hwrites : ∀ xs,
        (∃ s', (after overfilled).store.write threeChannels xs = .ok s') ↔ xs.length = 3 := by
      intro xs
      rw [hcount, Index.ncard_inBounds]
      rfl
    obtain ⟨s', hwrite⟩ := (hwrites [1, 2, 3]).2 rfl
    obtain ⟨hread, -, hpadding, hafter⟩ := hwritten _ _ hwrite
    rw [hbefore] at hafter
    exact ⟨hmade, hbefore, hwrites, s', hwrite, hread, hpadding, (Option.some.inj hafter).symm⟩
  · have hmade : (after [.create noElements.desc]).made = [noElements] := by rfl
    obtain ⟨sizes, hshape, hcount, -⟩ :=
      typed_roundtrip [.create noElements.desc] (hmade ▸ List.mem_singleton_self _) rfl
    cases Shape.ofSizes_injective hshape
    refine ⟨hmade, by decide, fun xs => ?_⟩
    rw [hcount, Index.ncard_inBounds]
    exact List.length_eq_zero_iff

/-- Padding stays zero, and every memory keeps the size of its descriptor, as long as no access
    goes around the layout. -/
theorem padding_stays_zero (accesses : List Access) (htyped : ∀ a ∈ accesses, a.isTyped = true) :
    ∀ m ∈ (after accesses).made, (after accesses).store.ZeroPadded m ∧
      m.desc.byteSize? = some ((after accesses).store.byteLength m) := by
  intro m hm
  obtain ⟨-, -, hbytes⟩ :=
    (Descriptor.requiredBytes_eq_ok_iff _ _).1 ((sound_after accesses).fits m hm)
  exact ⟨zeroPadded_after htyped m hm, hbytes⟩

/-- Three channels in blocks of two and in planar order, moved to and fro; the last two accesses
    are a conversion in place and a write of too few elements. -/
def toAndFro : List Access :=
  [.createWith ⟨.f32, .ofSizes [1, 3], .blocked 2⟩ [1, 2, 3],
    .adopt ⟨.f32, .ofSizes [1, 3], .planar⟩ #[9, 9, 9], .convert 0 1, .write 1 [4, 5, 6],
    .convert 1 0, .convert 0 0, .write 0 [7]]

theorem padding_stays_zero_toAndFro :
    (after toAndFro).made.map Memory.cell = [0, 1] ∧
      ∀ m ∈ (after toAndFro).made, (after toAndFro).store.ZeroPadded m ∧
        m.desc.byteSize? = some ((after toAndFro).store.byteLength m) :=
  ⟨by decide, padding_stays_zero toAndFro (by decide)⟩

end Memories

end KernelDispatch
