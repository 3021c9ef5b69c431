import KernelDispatch.Operation.MatMul
import KernelDispatch.Proofs.Dispatch.Foresight
import KernelDispatch.Proofs.Operation.Operands

/-
  Kernels for matrix products by descriptors. The operands of a product resolve to its sizes exactly
  when they have these sizes (`resolve_eq_ok_iff`), and operands that exist and are supported do
  (`exists_resolves`). Selection for a pattern foresees all operands that match it (`foresees`).
-/

namespace KernelDispatch

namespace MatMul

variable {σ : Type} (arith : Arithmetic) (op : MatMul) (constraints : Constraints)

/-! ## Sizes -/

/-- The sizes of the weights, which may be stored by columns. -/
def weightSizes (z : ProductSizes) : List Nat :=
  if op.transposed then [z.columns, z.inner] else [z.inner, z.columns]

/-- The operands have the sizes of the product, and so has the bias if there is one. -/
structure Resolves (ds : Descriptors) (z : ProductSizes) : Prop where
  left : ds.HasSizes (.source 0) [z.rows, z.inner]
  weights : ds.HasSizes .weights (op.weightSizes z)
  target : ds.HasSizes (.destination 0) [z.rows, z.columns]
  bias : ∀ d, ds.get? .bias = some d → d.shape = .ofSizes [z.columns]

theorem checkBias_eq_ok_iff (b : Bindings) (columns : Nat) : checkBias b columns = .ok () ↔
    ∀ d, b.descriptors.get? .bias = some d → d.shape = .ofSizes [columns] := by
  unfold checkBias
  rw [Bindings.get?_descriptors]
  cases b.get? .bias with
  | none => simp
  | some m =>
    simp only [bind_eq_ok_iff, Descriptor.concreteSizes_eq_ok_iff, Option.map_some,
      Option.some.injEq, forall_eq']
    constructor
    · rintro ⟨sizes, hsizes, h⟩
      split at h
      · rename_i heq
        rw [hsizes, heq]
      · cases h
    · intro h
      exact ⟨_, h, if_pos rfl⟩

theorem resolve_eq_ok_iff (b : Bindings) (z : ProductSizes) :
    op.resolve b = .ok z ↔ op.Resolves b.descriptors z := by
  unfold resolve
  simp only [bind_eq_ok_iff, Bindings.sizes_eq_ok_iff]
  constructor
  · rintro ⟨left, hleft, weights, hweights, target, htarget, h⟩
    split at h
    · rename_i rows inner first second _ _
      generalize hpair : (if op.transposed = true then (second, first) else (first, second)) = pair
        at h
      obtain ⟨weightInner, columns⟩ := pair
      split at h
      · cases h
      · rename_i hinner
        obtain rfl := Decidable.not_not.1 hinner
        split at h
        · cases h
        · rename_i hsizes
          rw [Decidable.not_not.1 hsizes] at htarget
          obtain ⟨_, hbias, hz⟩ := (bind_eq_ok_iff _ _ _).1 h
          cases hz
          refine ⟨hleft, ?_, htarget, (checkBias_eq_ok_iff b columns).1 hbias⟩
          unfold weightSizes
          split at hpair <;> rename_i htransposed <;> cases hpair
          · rw [if_pos htransposed]
            exact hweights
          · rw [if_neg htransposed]
            exact hweights
    · cases h
  · intro h
    refine ⟨_, h.left, _, h.weights, _, h.target, ?_⟩
    have hbias := (checkBias_eq_ok_iff b z.columns).2 h.bias
    unfold weightSizes
    cases op.transposed with
    | true =>
      simp [hbias, bind, Except.bind, pure, Except.pure]
    | false =>
      simp [hbias, bind, Except.bind, pure, Except.pure]

theorem Resolves.unique {ds : Descriptors} {z z' : ProductSizes} (h : op.Resolves ds z)
    (h' : op.Resolves ds z') : z = z' := by
  have hleft := h.left.unique h'.left
  have htarget := h.target.unique h'.target
  cases z
  cases z'
  simp_all

/-- Layouts make no difference to the sizes. -/
theorem Resolves.inLayout {ds : Descriptors} {z : ProductSizes} (h : op.Resolves ds z) (l : Layout) :
    op.Resolves (ds.inLayout l) z := by
  refine ⟨h.left.inLayout l, h.weights.inLayout l, h.target.inLayout l, fun d hd => ?_⟩
  rw [Descriptors.get?_inLayout, Option.map_eq_some_iff] at hd
  obtain ⟨d', hd', rfl⟩ := hd
  exact h.bias d' hd'

/-! ## What is accepted -/

/-- The operands are planar and have the sizes of a product that the schedule takes. -/
def Suitable (schedule : Product.Schedule) (ds : Descriptors) : Prop :=
  ds.allInLayout .planar = true ∧
    ∃ z, op.Resolves ds z ∧ (schedule = .byTile → z.tiles = true)

theorem accepts_eq_ok_true_iff (schedule : Product.Schedule) (b : Bindings) :
    op.accepts schedule b = .ok true ↔ op.Suitable schedule b.descriptors := by
  unfold accepts Suitable
  rw [Except.ok.injEq, Bool.and_eq_true]
  refine and_congr_right fun _ => ?_
  constructor
  · intro h
    split at h
    · rename_i z hz
      refine ⟨z, (op.resolve_eq_ok_iff b z).1 hz, fun hschedule => ?_⟩
      rw [hschedule] at h
      exact h
    · cases h
  · rintro ⟨z, hz, htiles⟩
    rw [(op.resolve_eq_ok_iff b z).2 hz]
    cases schedule with
    | byRow => rfl
    | byTile => exact htiles rfl

theorem accepts_ofDescriptors (schedule : Product.Schedule) (b : Bindings) :
    op.accepts schedule (.ofDescriptors b.descriptors) = op.accepts schedule b :=
  Runner.accepts_ofDescriptors (fun _ => rfl) (op.accepts_eq_ok_true_iff schedule) b

/-! ## What is supported -/

/-- Operands that exist and fit have the sizes of a product. -/
theorem exists_resolves {ds : Descriptors} (hall : ds.Allocatable) (h : op.fits ds = true) :
    ∃ z, op.Resolves ds z := by
  simp only [fits, Bool.and_eq_true, List.all_cons, List.all_nil, Option.any_eq_true,
    beq_iff_eq] at h
  obtain ⟨⟨⟨⟨⟨⟨⟨d, hd, hrank⟩, ⟨e, he, herank⟩, ⟨t, ht, htrank⟩, -⟩, hinner⟩, hrows⟩, hcolumns⟩,
    hbias⟩, hsingle⟩ := h
  have hsingle := (Descriptors.allSingle_iff ds).1 hsingle
  have hpair : ∀ p d, ds.get? p = some d → d.rank = 2 → ∃ m n, d.shape = .ofSizes [m, n] := by
    intro p d hd hrank
    obtain ⟨sizes, hshape, -⟩ := (hall p d hd).sizes
    rw [Descriptor.rank, hshape, Shape.rank_ofSizes] at hrank
    obtain ⟨m, n, rfl⟩ := List.length_eq_two.1 hrank
    exact ⟨m, n, hshape⟩
  obtain ⟨rows, inner, hdshape⟩ := hpair _ d hd hrank
  obtain ⟨first, second, heshape⟩ := hpair _ e he herank
  obtain ⟨rows', columns, htshape⟩ := hpair _ t ht htrank
  simp only [Descriptors.axis?, hd, he, ht, Option.bind_some, hdshape, heshape, htshape,
    Shape.axis?_ofSizes] at hinner hrows hcolumns
  have hrows : rows = rows' := by simpa [Extent.bothAgree, Extent.agrees] using hrows
  refine ⟨⟨rows, inner, columns⟩, ⟨d, hd, hsingle _ d hd, hdshape⟩,
    ⟨e, he, hsingle _ e he, ?_⟩, ⟨t, ht, hsingle _ t ht, by rw [htshape, hrows]⟩, fun b hb => ?_⟩
  · rw [heshape]
    unfold weightAxes at hinner hcolumns
    unfold weightSizes
    cases htransposed : op.transposed <;>
      simp [htransposed, Extent.bothAgree, Extent.agrees] at hinner hcolumns ⊢ <;>
      simp [hinner, hcolumns]
  · simp only [biasFits, hb, Option.all_some, Bool.and_eq_true, beq_iff_eq] at hbias
    obtain ⟨sizes, hshape, -⟩ := (hall _ b hb).sizes
    obtain ⟨hbrank, hagree⟩ := hbias
    rw [Descriptor.rank, hshape, Shape.rank_ofSizes] at hbrank
    obtain ⟨n, rfl⟩ := List.length_eq_one_iff.1 hbrank
    simp only [Descriptors.axis?, ht, Option.bind_some, htshape, hshape,
      Shape.axis?_ofSizes] at hagree
    have hn : n = columns := by simpa [Extent.bothAgree, Extent.agrees] using hagree
    rw [hshape, hn]

/-- What can fit on known extents fits with unknown ones. -/
theorem fits_of_narrow {ds pattern : Descriptors} (h : ds.Narrow pattern)
    (hfits : op.fits ds = true) : op.fits pattern = true := by
  have hrank : ∀ p r, (ds.get? p).any (·.rank == r) = (pattern.get? p).any (·.rank == r) :=
    fun p r => h.any_eq (fun d t hm => by rw [hm.rank_eq]) p
  simp only [fits, Bool.and_eq_true, List.all_cons, List.all_nil] at hfits ⊢
  obtain ⟨⟨⟨⟨⟨⟨hleft, hweights, htarget, -⟩, hinner⟩, hrows⟩, hcolumns⟩, hbias⟩, hsingle⟩ := hfits
  refine ⟨⟨⟨⟨⟨⟨?_, ?_, ?_, trivial⟩, h.bothAgree hinner⟩, h.bothAgree hrows⟩,
    h.bothAgree hcolumns⟩, ?_⟩, ?_⟩
  · rw [← hrank]
    exact hleft
  · rw [← hrank]
    exact hweights
  · rw [← hrank]
    exact htarget
  · unfold biasFits at hbias ⊢
    rcases h.get? .bias with ⟨-, ht⟩ | ⟨d, t, hd, ht, hm⟩
    · rw [ht]
      rfl
    · rw [hd, Option.all_some, Bool.and_eq_true, hm.rank_eq] at hbias
      rw [ht, Option.all_some, Bool.and_eq_true]
      exact ⟨hbias.1, (hm.axis? 0).bothAgree (h.axis? _ 1) hbias.2⟩
  · rw [← h.allSingle_eq]
    exact hsingle

theorem extentsTile_iff (ifUnknown : Bool) (d : Descriptor) : extentsTile ifUnknown d = true ↔
    (∀ n, Extent.known n ∈ d.shape.extents → n % ProductSizes.tile = 0) ∧
      (Extent.unknown ∈ d.shape.extents → ifUnknown = true) := by
  simp only [extentsTile, List.all_eq_true]
  constructor
  · intro h
    refine ⟨fun n hn => ?_, fun hu => h _ hu⟩
    simpa using h _ hn
  · rintro ⟨hknown, hunknown⟩ e he
    cases e with
    | known n => simpa using hknown n he
    | unknown => exact hunknown he

theorem allTile_iff (ifUnknown : Bool) (ds : Descriptors) : allTile ifUnknown ds = true ↔
    ∀ p d, ds.get? p = some d → p ≠ .bias → extentsTile ifUnknown d = true := by
  simp only [allTile, OrderedMap.all_eq_true_iff, Bool.or_eq_true, beq_iff_eq]
  exact forall₃_congr fun p d _ => ⟨fun h hne => h.resolve_left hne, fun h =>
    (Classical.em (p = .bias)).imp_right h⟩

/-- The sizes of an operand that is in whole tiles are multiples of the tile. -/
theorem mod_tile_of_hasSizes {ds : Descriptors} {ifUnknown : Bool}
    (h : allTile ifUnknown ds = true) {p : Operand} (hp : p ≠ .bias) {sizes : List Nat}
    (hsizes : ds.HasSizes p sizes) : ∀ n ∈ sizes, n % ProductSizes.tile = 0 := by
  obtain ⟨d, hd, -, hshape⟩ := hsizes
  intro n hn
  refine ((extentsTile_iff _ d).1 ((allTile_iff _ ds).1 h p d hd hp)).1 n ?_
  rw [hshape]
  exact List.mem_map_of_mem hn

/-- A product of operands in whole tiles has sizes in whole tiles. -/
theorem Resolves.tiles {ds : Descriptors} {z : ProductSizes} (h : op.Resolves ds z)
    {ifUnknown : Bool} (htile : allTile ifUnknown ds = true) : z.tiles = true := by
  have hleft := mod_tile_of_hasSizes htile (by simp) h.left
  have htarget := mod_tile_of_hasSizes htile (by simp) h.target
  simp only [ProductSizes.tiles, Bool.and_eq_true, beq_iff_eq]
  exact ⟨⟨hleft _ (by simp), hleft _ (by simp)⟩, htarget _ (by simp)⟩

theorem allTile_of_allocatable {ds : Descriptors} (hall : ds.Allocatable)
    (h : allTile true ds = true) : allTile false ds = true := by
  rw [allTile_iff] at h ⊢
  intro p d hd hp
  have htile := (extentsTile_iff _ d).1 (h p d hd hp)
  refine (extentsTile_iff _ d).2 ⟨htile.1, fun hu => ?_⟩
  obtain ⟨sizes, hshape, -⟩ := (hall p d hd).sizes
  rw [hshape] at hu
  simp [Shape.ofSizes] at hu

theorem allTile_of_narrow {ds pattern : Descriptors} (h : ds.Narrow pattern)
    (htile : allTile true ds = true) : allTile true pattern = true := by
  rw [allTile_iff] at htile ⊢
  refine h.forall_of_forall (fun p d t hm htile hp => ?_) htile
  exact (extentsTile_iff _ t).2
    ⟨fun n hn => ((extentsTile_iff _ d).1 (htile hp)).1 n (hm.known_mem hn), fun _ => rfl⟩

theorem supportsAny_of_narrow {ds pattern : Descriptors} (h : ds.Narrow pattern)
    (hds : op.supportsAny ds constraints = true) : op.supportsAny pattern constraints = true := by
  unfold supportsAny at hds ⊢
  rw [h.admits_eq, Bool.and_eq_true] at hds
  rw [Bool.and_eq_true]
  exact hds.imp_left (op.fits_of_narrow h)

theorem supportsTiled_of_narrow {ds pattern : Descriptors} (h : ds.Narrow pattern)
    (hds : op.supportsTiled ds constraints = true) :
    op.supportsTiled pattern constraints = true := by
  simp only [supportsTiled, Bool.and_eq_true] at hds ⊢
  obtain ⟨⟨⟨hfits, htile⟩, hplanar⟩, hadmits⟩ := hds
  rw [h.allInLayout_eq] at hplanar
  rw [h.admits_eq] at hadmits
  exact ⟨⟨⟨op.fits_of_narrow h hfits, allTile_of_narrow h htile⟩, hplanar⟩, hadmits⟩

/-! ## Steady kernels -/

/-- The kernel for sizes in whole tiles. -/
def steadyTiled : SteadyKernel σ op constraints where
  kernel := tiledKernel arith
  supports ds := op.supportsTiled ds constraints
  acceptsShapes ds := allTile false ds
  preferred _ := none
  takes := Runner.takes (op.accepts .byTile)
  supports_eq _ _ := rfl
  acceptsShapes_eq _ _ := rfl
  preferred_eq _ _ := rfl
  builds _ _ := ⟨_, rfl, Runner.onStore_answers (op.accepts_ofDescriptors .byTile)⟩

/-- The kernel for all sizes. -/
def steadyReference : SteadyKernel σ op constraints where
  kernel := referenceKernel arith
  supports ds := op.supportsAny ds constraints
  acceptsShapes _ := true
  preferred ds := ds.relaid? fun _ _ => .planar
  takes := Runner.takes (op.accepts .byRow)
  supports_eq _ _ := rfl
  acceptsShapes_eq _ _ := rfl
  preferred_eq _ _ := rfl
  builds _ _ := ⟨_, rfl, Runner.onStore_answers (op.accepts_ofDescriptors .byRow)⟩

def steadyKernels : List (SteadyKernel σ op constraints) :=
  [steadyTiled arith op constraints, steadyReference arith op constraints]

theorem kernel_steadyKernels : (steadyKernels (σ := σ) arith op constraints).map
    SteadyKernel.kernel = kernels arith := rfl

theorem prefersLayout_steadyReference :
    (steadyReference (σ := σ) arith op constraints).PrefersLayout .planar := fun _ => rfl

theorem neverPrefers_steadyTiled :
    (steadyTiled (σ := σ) arith op constraints).NeverPrefers := fun _ => rfl

/-- Planar operands of positive extents exist if the operands do in some layout. -/
theorem allocatable_planar {ds pattern : Descriptors} (h : ds.Match pattern)
    (hall : ds.Allocatable) : (ds.inLayout .planar).Allocatable := by
  intro p d hd
  rw [Descriptors.get?_inLayout, Option.map_eq_some_iff] at hd
  obtain ⟨d', hd', rfl⟩ := hd
  obtain ⟨t, -, hm⟩ := h.bound p d' hd'
  exact (hall p d' hd').inLayout hm.positive rfl rfl

theorem foresees (pattern : Descriptors) :
    Foresees (steadyKernels (σ := σ) arith op constraints) pattern
      fun ds => ds.Match pattern ∧ ds.Allocatable := by
  have htiled := neverPrefers_steadyTiled (σ := σ) arith op constraints
  have hreference := prefersLayout_steadyReference (σ := σ) arith op constraints
  have hcases : ∀ k ∈ steadyKernels (σ := σ) arith op constraints,
      k = steadyTiled arith op constraints ∨ k = steadyReference arith op constraints := by
    simp [steadyKernels]
  refine ⟨fun k hk => ?_, fun k hk ds hds h => ?_, fun k hk ds ds' hds hds' => ?_,
    fun k hk ds hds => ?_, fun k hk _ ds hds => ?_⟩
  · obtain rfl := List.mem_singleton.1 hk
    rfl
  · rcases hcases k hk with rfl | rfl
    · exact op.supportsTiled_of_narrow constraints hds.1.narrow h
    · exact op.supportsAny_of_narrow constraints hds.1.narrow h
  · rcases hcases k hk with rfl | rfl
    · rw [htiled.route_eq, htiled.route_eq]
    · exact hreference.route_eq (hds.1.narrow.formats_eq.trans hds'.1.narrow.formats_eq.symm)
  · rcases hcases k hk with rfl | rfl
    · exact htiled.keepsShapes ds
    · exact hreference.keepsShapes ds
  · rcases hcases k hk with rfl | rfl
    · exact htiled.staged ds
    · exact hreference.staged (allocatable_planar hds.1 hds.2)

/-- A kernel takes existing operands with positive extents that it supports. -/
theorem response_of_supports {k : SteadyKernel σ op constraints}
    (hk : k ∈ steadyKernels arith op constraints) {ds : Descriptors} (hall : ds.Allocatable)
    (hplanar : (ds.inLayout .planar).Allocatable) (hsupports : k.supports ds = true) :
    k.response ds = .ok true := by
  rcases List.mem_cons.1 hk with rfl | hk
  · have hsupported : op.supportsTiled ds constraints = true := hsupports
    simp only [supportsTiled, Bool.and_eq_true] at hsupported
    obtain ⟨⟨⟨hfits, htile⟩, hlayout⟩, -⟩ := hsupported
    obtain ⟨z, hz⟩ := op.exists_resolves hall hfits
    refine response_of_verdict hsupports (allTile_of_allocatable hall htile) ?_
    rw [SteadyKernel.verdict_of_no_preference rfl]
    exact Runner.takes_eq_ok_true (op.accepts_eq_ok_true_iff .byTile)
      ⟨hlayout, z, hz, fun _ => hz.tiles op htile⟩
  · obtain rfl := List.mem_singleton.1 hk
    have hsupported : op.supportsAny ds constraints = true := hsupports
    unfold supportsAny at hsupported
    rw [Bool.and_eq_true] at hsupported
    obtain ⟨z, hz⟩ := op.exists_resolves hall hsupported.1
    refine response_of_verdict hsupports rfl ?_
    rw [(prefersLayout_steadyReference arith op constraints).verdict_eq hall hplanar]
    exact Runner.takes_eq_ok_true (op.accepts_eq_ok_true_iff .byRow)
      ⟨Descriptors.allInLayout_inLayout ds _, z, hz.inLayout op _, fun h => by cases h⟩

end MatMul

end KernelDispatch
