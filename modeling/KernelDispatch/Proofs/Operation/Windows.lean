import KernelDispatch.Proofs.Memory.Embedding
import KernelDispatch.Proofs.Operation.Results

/-
  The windows of a pooling stay inside its input. `Pooling.run?` is a run in which all arithmetic on
  positions and all reads are checked; on operands that exist no check fails (`Pooling.run?_eq`).
-/

namespace KernelDispatch

/-- A list goes through a step that never fails on its elements. -/
theorem mapM_eq_some_map {α β : Type} {f : α → Option β} {g : α → β} {l : List α}
    (h : ∀ x ∈ l, f x = some (g x)) : l.mapM f = some (l.map g) := by
  induction l with
  | nil => rfl
  | cons x l ih =>
    obtain ⟨hx, hl⟩ := List.forall_mem_cons.1 h
    rw [List.mapM_cons, hx, ih hl]
    rfl

/-- Computations that begin with the same step agree up to a map if what follows it does. -/
theorem bind_eq_map {ε α β γ : Type} {x : Except ε α} {f : α → Except ε γ} {g : α → Except ε β}
    {k : β → γ} (h : ∀ a, x = .ok a → f a = (g a).map k) : (x >>= f) = (x >>= g).map k := by
  cases x with
  | error e => rfl
  | ok a => exact h a rfl

/-- The size of a buffer of `f32` elements is in range. -/
theorem Store.Fits.elementCount?_eq_some {s : Store} {m : Memory} (h : s.Fits m)
    (htype : m.desc.elementType = .f32) {sizes : List Nat}
    (hshape : m.desc.shape = .ofSizes sizes) :
    m.desc.layout.elementCount? sizes = some (s.contents m).singles.size := by
  obtain ⟨total, htotal, hbytes⟩ := (Descriptor.spans_of_requiredBytes h).counted
  rw [Descriptor.sizes_of_shape hshape] at htotal
  have hsize : (s.contents m).size = total * 4 := by
    rw [htype] at hbytes
    exact (times?_eq_some.1 hbytes).1.symm
  rw [htotal, Bytes.size_singles, hsize, Nat.mul_div_cancel _ (by decide)]

namespace Pooling

variable (arith : Arithmetic) (op : Pooling)

/-! ## Checked reads -/

/-- An element of a buffer that has the channels last, if the buffer has it. -/
def read? (g : PoolGeometry) (xs : Array Single) (image line column channel : Nat) :
    Option Single :=
  (digit? image g.input.height line).bind fun p =>
    (digit? p g.input.width column).bind fun q =>
      (digit? q g.channels channel).bind fun i => xs[i]?

/-- `windowElements` with everything checked. -/
def windowElements? (g : PoolGeometry) (xs : Array Single) (image line column channel : Nat) :
    Option (List Single) :=
  ((List.range op.window.height).mapM fun i =>
    (List.range op.window.width).mapM fun j =>
      (digit? line op.stride.height i).bind fun inputLine =>
        (digit? column op.stride.width j).bind fun inputColumn =>
          read? g xs image inputLine inputColumn channel).map List.flatten

/-- `outputLine` with everything checked. -/
def outputLine? (g : PoolGeometry) (xs : Array Single) (image line : Nat) : Option (List Single) :=
  (List.range g.lineLength).mapM fun i =>
    (op.windowElements? g xs image line (i / g.channels) (i % g.channels)).map (op.pool arith)

/-- `computed` with everything checked. -/
def computed? (g : PoolGeometry) (xs : Array Single) : Option (Array Single) :=
  if g.lineLength = 0 then some #[]
  else ((List.range g.lines).mapM fun r =>
    op.outputLine? arith g xs (r / g.output.height) (r % g.output.height)).map
      fun lines => lines.flatten.toArray

/-- `run` with everything checked. What it yields is absent if a check fails. -/
def run? (b : Bindings) (s : Store) : Except Misfit (Option Store) := do
  let g ← op.geometry b
  let xs ← b.elements s (.source 0)
  let target ← b.requireSingle (.destination 0)
  match op.computed? arith g xs with
  | none => return none
  | some ys => return some (← s.fill target ys)

variable {op} {g : PoolGeometry} {xs : Array Single}

/-- Elements of the input are read where they are. -/
theorem read?_eq_some (hcount : Layout.channelsLast.elementCount? g.inputSizes = some xs.size)
    {image line column channel : Nat}
    (hin : Index.InBounds g.inputSizes [image, channel, line, column]) :
    read? g xs image line column channel =
      some (xs.getD (g.position image line column channel) .zero) := by
  have hoffset : Layout.channelsLast.offset g.inputSizes [image, channel, line, column] =
      g.position image line column channel := Layout.offset_channelsLast_images ..
  have hlt := Layout.offset_lt (l := .channelsLast) rfl hin
  rw [hoffset, ← (product?_eq_some hcount).1] at hlt
  have hread : read? g xs image line column channel =
      (Layout.channelsLast.offset? g.inputSizes [image, channel, line, column]).bind
        fun i => xs[i]? := by
    simp [read?, Layout.offset?, Index.positionFrom?, PoolGeometry.inputSizes, Option.bind_assoc]
  rw [hread, Layout.offset?_eq_some rfl hcount hin, hoffset, Option.bind_some]
  simp [Array.getD_eq_getD_getElem?, hlt]

/-- The extents of an input that has elements are in range. -/
theorem lt_sizeLimit_of_inBounds
    (hcount : Layout.channelsLast.elementCount? g.inputSizes = some xs.size) {index : Index}
    (hin : Index.InBounds g.inputSizes index) {n : Nat} (hn : n ∈ g.inputSizes) :
    n < sizeLimit := by
  have hlt := Layout.offset_lt (l := .channelsLast) rfl hin
  obtain ⟨hvolume, hrange⟩ := product?_eq_some hcount
  have hmem : n ∈ Layout.channelsLast.physicalSizes g.inputSizes := by
    simp only [PoolGeometry.inputSizes, Layout.physicalSizes, List.mem_cons, List.not_mem_nil,
      or_false, List.mem_append] at hn ⊢
    tauto
  have hle := Index.le_volume_of_mem (Nat.zero_lt_of_lt hlt) hmem
  omega

theorem windowElements?_eq_some (hcovers : op.Covers g)
    (hcount : Layout.channelsLast.elementCount? g.inputSizes = some xs.size)
    {image line column channel : Nat} (himage : image < g.batch) (hline : line < g.output.height)
    (hcolumn : column < g.output.width) (hchannel : channel < g.channels) :
    op.windowElements? g xs image line column channel =
      some (op.windowElements g xs image line column channel) := by
  unfold windowElements? windowElements
  rw [mapM_eq_some_map fun i hi => mapM_eq_some_map fun j hj => ?_]
  · rw [List.flatMap_def]
    rfl
  · have hin := hcovers.inBounds himage hchannel hline hcolumn (List.mem_range.1 hi)
      (List.mem_range.1 hj)
    have hlimit : ∀ n ∈ g.inputSizes, n < sizeLimit := fun n =>
      lt_sizeLimit_of_inBounds hcount hin
    obtain ⟨-, -, hlt, hlt', -⟩ := hin
    rw [digit?_eq_some (Nat.lt_trans hlt (hlimit _ (by simp [PoolGeometry.inputSizes]))),
      Option.bind_some,
      digit?_eq_some (Nat.lt_trans hlt' (hlimit _ (by simp [PoolGeometry.inputSizes]))),
      Option.bind_some]
    exact read?_eq_some hcount ⟨himage, hchannel, hlt, hlt', trivial⟩

/-- No read leaves the input. -/
theorem computed?_eq_some (hcovers : op.Covers g)
    (hcount : Layout.channelsLast.elementCount? g.inputSizes = some xs.size) :
    op.computed? arith g xs = some (op.computed arith g xs) := by
  unfold computed? computed
  split
  · rfl
  · rw [mapM_eq_some_map fun r hr => ?_]
    · rw [List.flatMap_def]
      rfl
    · have hr : r < g.batch * g.output.height := List.mem_range.1 hr
      have hpos : 0 < g.output.height := Nat.pos_of_mul_pos_left (Nat.zero_lt_of_lt hr)
      refine mapM_eq_some_map fun i hi => ?_
      have hi : i < g.output.width * g.channels := List.mem_range.1 hi
      have hchannels : 0 < g.channels := Nat.pos_of_mul_pos_left (Nat.zero_lt_of_lt hi)
      rw [windowElements?_eq_some hcovers hcount (Nat.div_lt_of_lt_mul (Nat.mul_comm _ _ ▸ hr))
        (Nat.mod_lt r hpos) (Nat.div_lt_of_lt_mul (Nat.mul_comm _ _ ▸ hi)) (Nat.mod_lt i hchannels)]
      rfl

/-- The source of a pooling that exists has as many elements as its sizes say. -/
theorem elementCount?_source {b : Bindings} {s : Store} (hs : s.Has b) (hg : op.geometry b = .ok g)
    (hxs : b.elements s (.source 0) = .ok xs) :
    Layout.channelsLast.elementCount? g.inputSizes = some xs.size := by
  obtain ⟨hpools, hlast⟩ := (op.geometry_eq_ok_iff b g).1 hg
  obtain ⟨m, hm, rfl⟩ := (b.elements_eq_ok_iff s _ xs).1 hxs
  have hcount := (hs _ m hm.1).2.elementCount?_eq_some hm.2 (hm.shape hpools.source)
  rw [hlast _ (by simp) _ (Bindings.descriptors_get?_of_get? hm.1)] at hcount
  exact hcount

/-- On operands that exist a run reads elements only that the source has. -/
theorem run?_eq {b : Bindings} {s : Store} (hs : s.Has b) :
    op.run? arith b s = (op.run arith b s).map some := by
  refine bind_eq_map fun g hg => bind_eq_map fun xs hxs => bind_eq_map fun target _ => ?_
  obtain ⟨hpools, -⟩ := (op.geometry_eq_ok_iff b g).1 hg
  rw [computed?_eq_some arith ⟨hpools.height, hpools.width⟩ (elementCount?_source hs hg hxs)]
  show (s.fill target (op.computed arith g xs) >>= fun s' => pure (some s')) = _
  cases s.fill target (op.computed arith g xs) <;> rfl

end Pooling

end KernelDispatch
