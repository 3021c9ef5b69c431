import KernelDispatch.Proofs.Operation.Completion
import KernelDispatch.Proofs.Operation.Windows

/-
  Poolings from selection to the result, on the elements of the memories. Whatever the layouts of
  images that are supported, an executor for them leaves the pooled images in the destination, and
  its kernel reads nothing that is not there (`StandardOperation.pooling_leaves_pooled_images`).
-/

namespace KernelDispatch

/-- A destination that has a pooling, element by element. -/
theorem Pooling.Computes.elements {arith : Arithmetic} {op : Pooling} {b : Bindings} {s s' : Store}
    (h : op.Computes arith b s s') : ∃ g x t, b.BindsSingle (.source 0) x ∧
      b.BindsSingle (.destination 0) t ∧ x.desc.shape = .ofSizes g.inputSizes ∧
      t.desc.shape = .ofSizes g.outputSizes ∧ op.Covers g ∧
      ∀ image < g.batch, ∀ channel < g.channels, ∀ line < g.output.height,
        ∀ column < g.output.width, s'.element t [image, channel, line, column] =
          op.pool arith ((List.range op.window.height).flatMap fun i =>
            (List.range op.window.width).map fun j => s.element x
              [image, channel, line * op.stride.height + i, column * op.stride.width + j]) := by
  obtain ⟨g, u, ⟨x, hx, hxshape, hxelement⟩, husizes, hcovers, t, ht, htshape, htelement⟩ := h
  rw [husizes] at hxshape hxelement
  refine ⟨g, x, t, hx, ht, hxshape, htshape, hcovers,
    fun image himage channel hchannel line hline column hcolumn => ?_⟩
  rw [htelement [image, channel, line, column] ⟨himage, hchannel, hline, hcolumn, trivial⟩]
  refine congrArg (fun lines => op.pool arith (List.flatten lines))
    (List.map_congr_left fun i hi => List.map_congr_left fun j hj => ?_)
  exact (hxelement _ (hcovers.inBounds himage hchannel hline hcolumn (List.mem_range.1 hi)
    (List.mem_range.1 hj))).symm

namespace StandardOperation

/-- Let the kernel for poolings support existing images with positive extents, in any layouts, that
    do not share a memory; let no name be prescribed and no layout be ruled out. Selecting for these
    operands, making an executor for them and calling it succeed. The extents of the destination are
    the largest numbers of windows that fit into the source. Each of its elements is the largest
    element under its window, or their average, the elements being taken line by line; the source
    is as it was. All windows lie in the source, and the call is a run of the kernel that does not
    change if every read is checked. -/
theorem pooling_leaves_pooled_images (arith : Arithmetic) (op : Pooling) {context : Context}
    (hoverride : context.overrides.priorityFor (Operation.key Pooling) = none)
    {memory : Bindings} {w : World Unit} (ho : w.Owns memory) (hdistinct : memory.Distinct)
    (hpositive : ∀ p m, memory.get? p = some m → m.desc.IsPositive) {k : Kernel Pooling Unit}
    (hk : k ∈ (catalogue arith).entries pooling) {s : Session Unit}
    (hsupports : (k.supports op memory.descriptors ∅ s).1 = true) :
    ∃ f, Factory.select ((catalogue arith).entries pooling) op context memory.descriptors ∅ none
        w.toSession = (.ok f, w.toSession) ∧
      ∃ e w₁, f.make memory w = (.ok e, w₁) ∧
        ∃ e' w₂, e.execute memory w₁ = (.ok (), e', w₂) ∧
          (∃ (g : PoolGeometry) (x t : Memory), memory.BindsSingle (.source 0) x ∧
            memory.BindsSingle (.destination 0) t ∧
            x.desc.shape = .ofSizes g.inputSizes ∧ t.desc.shape = .ofSizes g.outputSizes ∧
            (∀ count, (∀ place < count,
              place * op.stride.height + op.window.height ≤ g.input.height) ↔
                count ≤ g.output.height) ∧
            (∀ count, (∀ place < count,
              place * op.stride.width + op.window.width ≤ g.input.width) ↔
                count ≤ g.output.width) ∧
            ∀ image < g.batch, ∀ channel < g.channels, ∀ line < g.output.height,
              ∀ column < g.output.width,
                let place (i j : Nat) : Index :=
                  [image, channel, line * op.stride.height + i, column * op.stride.width + j]
                let values := (List.range op.window.height).flatMap fun i =>
                  (List.range op.window.width).map fun j => w.store.element x (place i j)
                (∀ i < op.window.height, ∀ j < op.window.width,
                  Index.InBounds g.inputSizes (place i j)) ∧
                w₂.store.element t [image, channel, line, column] = match op.kind with
                  | .max => values.foldl arith.max .negativeInfinity
                  | .average => arith.div (values.foldl arith.add .negativeZero)
                    (arith.ofCount (op.window.height * op.window.width))) ∧
          (∃ built w' operands v, Executor.CallsAs (e, w₁) memory built w' ∧
            built.RunsAs memory w' (.onStore op.accepts (op.run arith)) operands v ∧
            ∃ s', op.run arith operands v.store = .ok s' ∧
              op.run? arith operands v.store = .ok (some s')) ∧
          ∀ p m, p.isInput = true → memory.get? p = some m →
            w₂.store.contents m = w.store.contents m := by
  obtain ⟨f, hselect, e, w₁, hmake, h⟩ :=
    completes_of_supports (i := pooling) arith hoverride ho hdistinct hpositive trivial hk hsupports
  refine ⟨f, hselect, e, w₁, hmake, _, _, Prod.ext h.succeeds rfl, ?_, ?_, h.inputs⟩
  · obtain ⟨g, x, t, hx, ht, hxshape, htshape, hcovers, helements⟩ := h.computes.elements
    refine ⟨g, x, t, hx, ht, hxshape, htshape, op.forall_fits_iff hcovers.height,
      op.forall_fits_iff hcovers.width,
      fun image himage channel hchannel line hline column hcolumn => ⟨fun i hi j hj => ?_, ?_⟩⟩
    · exact hcovers.inBounds himage hchannel hline hcolumn hi hj
    · exact helements image himage channel hchannel line hline column hcolumn
  · obtain ⟨built, w', r, operands, v, hcalls, rfl, hruns, hran⟩ := h.ran
    obtain ⟨s', hrun⟩ := (Runner.onStore_execute_isOk_iff operands v.toSession).1 hran
    refine ⟨built, w', operands, v, hcalls, hruns, s', hrun, ?_⟩
    rw [Pooling.run?_eq arith hruns.owns.has, hrun]
    rfl

/-! ## A pooling of a blocked image -/

/-- A channel of two lines in blocks of two. -/
def blockedImage : Descriptor := ⟨.f32, .ofSizes [1, 1, 2, 3], .blocked 2⟩

/-- A channel of one line. -/
def planarLine : Descriptor := ⟨.f32, .ofSizes [1, 1, 1, 2], .planar⟩

/-- Their memories: the lines of the image are 1, 2, 3 and 4, 5, 6. -/
def blockedWorld : World Unit where
  store := ⟨#[.ofSingles #[0x3f800000, 0, 0x40000000, 0, 0x40400000, 0,
    0x40800000, 0, 0x40a00000, 0, 0x40c00000, 0], Bytes.zeros 8]⟩
  ambient := ()
  scratch := {}

/-- The largest numbers in the two squares are 5 and 6. -/
theorem blockedImage_leaves_maxima :
    let memory := pair blockedImage planarLine 0 1
    ∃ f, Factory.select ((catalogue .single).entries pooling)
        (⟨.max, ⟨2, 2⟩, ⟨1, 1⟩⟩ : Pooling) (.ofSettings default) memory.descriptors ∅ none
          blockedWorld.toSession = (.ok f, blockedWorld.toSession) ∧
      ∃ e w₁, f.make memory blockedWorld = (.ok e, w₁) ∧
        ∃ e' w₂, e.execute memory w₁ = (.ok (), e', w₂) ∧
          w₂.store.element ⟨planarLine, 1⟩ [0, 0, 0, 0] = 0x40a00000 ∧
          w₂.store.element ⟨planarLine, 1⟩ [0, 0, 0, 1] = 0x40c00000 ∧
          w₂.store.bytes 0 = blockedWorld.store.bytes 0 := by
  intro memory
  obtain ⟨f, hselect, e, w₁, hmake, e', w₂, hexecute, ⟨⟨batch, channels, ⟨_, _⟩, ⟨_, _⟩⟩, x, t, hx,
    ht, hxshape, htshape, -, -, helements⟩, -, hinputs⟩ :=
      pooling_leaves_pooled_images .single ⟨.max, ⟨2, 2⟩, ⟨1, 1⟩⟩
        (show (Context.ofSettings default).overrides.priorityFor _ = none from rfl)
        (show blockedWorld.Owns memory from owns_pair rfl ⟨by decide, rfl⟩ ⟨by decide, rfl⟩)
        (Bindings.distinct_of_nodup (by decide))
        (fun p m hm => (by decide : ∀ e ∈ memory.entries, e.2.desc.IsPositive) (p, m)
          ((OrderedMap.get?_eq_some_iff _).1 hm))
        (List.mem_singleton_self (Pooling.kernel .single)) (s := ⟨{}, ()⟩) rfl
  cases hx.1
  cases ht.1
  cases Shape.ofSizes_injective hxshape
  cases Shape.ofSizes_injective htshape
  refine ⟨f, hselect, e, w₁, hmake, e', w₂, hexecute, ?_, ?_, hinputs (.source 0) _ rfl rfl⟩
  · rw [(helements 0 (by decide) 0 (by decide) 0 (by decide) 0 (by decide)).2]
    decide +kernel
  · rw [(helements 0 (by decide) 0 (by decide) 0 (by decide) 1 (by decide)).2]
    decide +kernel

end StandardOperation

end KernelDispatch
