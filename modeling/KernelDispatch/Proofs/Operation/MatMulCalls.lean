import KernelDispatch.Proofs.Operation.Completion

/-
  Products from selection to the result, on the elements of the memories. Whatever the layouts of
  matrices that are supported, an executor for them leaves their product in the destination
  (`StandardOperation.matMul_leaves_product`).
-/

namespace KernelDispatch

/-- The elements of a tensor that may be missing, which count as zero then. -/
theorem Bindings.MayHaveTensor.elements {b : Bindings} {s : Store} {p : Operand}
    {t : Option Tensor} (h : b.MayHaveTensor s p t) {sizes : List Nat}
    (hsizes : ∀ t', t = some t' → t'.sizes = sizes) :
    (∀ m, b.get? p = some m → m.desc.shape = .ofSizes sizes) ∧
      ∀ index, Index.InBounds sizes index → (t.map fun t' => t'.element index).getD .zero =
        (b.get? p).elim .zero fun m => s.element m index := by
  cases t with
  | none =>
    have hnone : b.get? p = none := h
    rw [hnone]
    exact ⟨fun _ hm => (by cases hm), fun _ _ => rfl⟩
  | some t' =>
    obtain ⟨n, hn, hshape, helement⟩ := h
    rw [hsizes t' rfl] at hshape helement
    rw [hn.1]
    refine ⟨fun m hm => ?_, fun index hin => (helement index hin).symm⟩
    cases hm
    exact hshape

/-- A destination that has a product, element by element. -/
theorem MatMul.Computes.elements {arith : Arithmetic} {op : MatMul} {b : Bindings} {s s' : Store}
    (h : op.Computes arith b s s') : ∃ z x y t, b.BindsSingle (.source 0) x ∧
      b.BindsSingle .weights y ∧ b.BindsSingle (.destination 0) t ∧
      x.desc.shape = .ofSizes [z.rows, z.inner] ∧ y.desc.shape = .ofSizes (op.weightSizes z) ∧
      t.desc.shape = .ofSizes [z.rows, z.columns] ∧
      (∀ m, b.get? .bias = some m → m.desc.shape = .ofSizes [z.columns]) ∧
      ∀ i < z.rows, ∀ j < z.columns, s'.element t [i, j] =
        (List.range z.inner).foldl
          (fun sum k => arith.add sum
            (arith.mul (s.element x [i, k]) (s.element y (op.weightIndex k j))))
          ((b.get? .bias).elim .zero fun m => s.element m [j]) := by
  obtain ⟨z, u, v, bias, ⟨x, hx, hxshape, hxelement⟩, husizes, ⟨y, hy, hyshape, hyelement⟩, hvsizes,
    hbias, hbiasSizes, t, ht, htshape, htelement⟩ := h
  rw [husizes] at hxshape hxelement
  rw [hvsizes] at hyshape hyelement
  obtain ⟨hbiasShape, hstart⟩ := hbias.elements hbiasSizes
  refine ⟨z, x, y, t, hx, hy, ht, hxshape, hyshape, htshape, hbiasShape, fun i hi j hj => ?_⟩
  rw [htelement [i, j] ⟨hi, hj, trivial⟩, ← hstart [j] ⟨hj, trivial⟩]
  show List.foldl arith.add _ ((List.range z.inner).map _) = _
  rw [List.foldl_map]
  refine List.foldl_ext _ _ _ fun sum k hk => ?_
  have hk : k < z.inner := List.mem_range.1 hk
  rw [hxelement [i, k] ⟨hi, hk, trivial⟩, hyelement _ (op.inBounds_weightIndex hk hj)]

namespace StandardOperation

/-- Let a kernel for products support existing matrices with positive extents, in any layouts, of
    which no two share a memory; let no name be prescribed and no layout be ruled out. Selecting for
    these operands, making an executor for them and calling it succeed. Each element of the
    destination is then the sum that starts at the bias of its column, or at zero, and takes the
    products of its row and its column one after the other; the inputs are as they were. -/
theorem matMul_leaves_product (arith : Arithmetic) (op : MatMul) {context : Context}
    (hoverride : context.overrides.priorityFor (Operation.key MatMul) = none)
    {memory : Bindings} {w : World Unit} (ho : w.Owns memory) (hdistinct : memory.Distinct)
    (hpositive : ∀ p m, memory.get? p = some m → m.desc.IsPositive) {k : Kernel MatMul Unit}
    (hk : k ∈ (catalogue arith).entries matMul) {s : Session Unit}
    (hsupports : (k.supports op memory.descriptors ∅ s).1 = true) :
    ∃ f, Factory.select ((catalogue arith).entries matMul) op context memory.descriptors ∅ none
        w.toSession = (.ok f, w.toSession) ∧
      ∃ e w₁, f.make memory w = (.ok e, w₁) ∧
        ∃ e' w₂, e.execute memory w₁ = (.ok (), e', w₂) ∧
          (∃ z x y t, memory.BindsSingle (.source 0) x ∧ memory.BindsSingle .weights y ∧
            memory.BindsSingle (.destination 0) t ∧ x.desc.shape = .ofSizes [z.rows, z.inner] ∧
            y.desc.shape = .ofSizes (op.weightSizes z) ∧
            t.desc.shape = .ofSizes [z.rows, z.columns] ∧
            (∀ m, memory.get? .bias = some m → m.desc.shape = .ofSizes [z.columns]) ∧
            ∀ i < z.rows, ∀ j < z.columns, w₂.store.element t [i, j] =
              (List.range z.inner).foldl
                (fun sum k => arith.add sum
                  (arith.mul (w.store.element x [i, k]) (w.store.element y (op.weightIndex k j))))
                ((memory.get? .bias).elim .zero fun m => w.store.element m [j])) ∧
          ∀ p m, p.isInput = true → memory.get? p = some m →
            w₂.store.contents m = w.store.contents m := by
  obtain ⟨f, hselect, e, w₁, hmake, h⟩ :=
    completes_of_supports (i := matMul) arith hoverride ho hdistinct hpositive trivial hk hsupports
  exact ⟨f, hselect, e, w₁, hmake, _, _, Prod.ext h.succeeds rfl, h.computes.elements, h.inputs⟩

/-! ## A product of blocked factors -/

/-- A row of three elements in blocks of two, weights stored by columns in blocks of four, and a
    planar bias and destination. -/
def mixedFactors : Bindings :=
  .ofList [(.source 0, ⟨⟨.f32, .ofSizes [1, 3], .blocked 2⟩, 0⟩),
    (.weights, ⟨⟨.f32, .ofSizes [2, 3], .blocked 4⟩, 1⟩),
    (.bias, ⟨⟨.f32, .ofSizes [2], .planar⟩, 2⟩),
    (.destination 0, ⟨⟨.f32, .ofSizes [1, 2], .planar⟩, 3⟩)]

/-- Their memories: the row is 1, 2, 3, the columns of the weights are 1, 2, 3 and 4, 5, 6, and the
    bias is 10, 20. -/
def mixedMemories : World Unit where
  store := ⟨#[.ofSingles #[0x3f800000, 0x40000000, 0x40400000, 0],
    .ofSingles #[0x3f800000, 0x40000000, 0x40400000, 0, 0x40800000, 0x40a00000, 0x40c00000, 0],
    .ofSingles #[0x41200000, 0x41a00000], Bytes.zeros 8]⟩
  ambient := ()
  scratch := {}

theorem owns_mixedFactors : mixedMemories.Owns mixedFactors := by
  refine .of_pool_eq_nil rfl fun p m hm => ?_
  have hmem : (p, m) ∈ mixedFactors.entries := (OrderedMap.get?_eq_some_iff _).1 hm
  change (p, m) ∈ [(Operand.source 0, _), (.weights, _), (.bias, _), (.destination 0, _)] at hmem
  simp only [List.mem_cons, List.not_mem_nil, or_false, Prod.mk.injEq] at hmem
  rcases hmem with ⟨-, rfl⟩ | ⟨-, rfl⟩ | ⟨-, rfl⟩ | ⟨-, rfl⟩ <;> exact ⟨by decide, rfl⟩

/-- The product is 24, 52. -/
theorem mixedFactors_leave_product :
    ∃ f, Factory.select ((catalogue .single).entries matMul) (⟨true⟩ : MatMul)
        (.ofSettings default) mixedFactors.descriptors ∅ none mixedMemories.toSession =
          (.ok f, mixedMemories.toSession) ∧
      ∃ e w₁, f.make mixedFactors mixedMemories = (.ok e, w₁) ∧
        ∃ e' w₂, e.execute mixedFactors w₁ = (.ok (), e', w₂) ∧
          w₂.store.element ⟨⟨.f32, .ofSizes [1, 2], .planar⟩, 3⟩ [0, 0] = 0x41c00000 ∧
          w₂.store.element ⟨⟨.f32, .ofSizes [1, 2], .planar⟩, 3⟩ [0, 1] = 0x42500000 ∧
          ∀ c < 3, w₂.store.bytes c = mixedMemories.store.bytes c := by
  obtain ⟨f, hselect, e, w₁, hmake, e', w₂, hexecute, ⟨⟨rows, inner, columns⟩, x, y, t, hx, hy, ht,
    hxshape, hyshape, htshape, -, helement⟩, hinputs⟩ := matMul_leaves_product .single ⟨true⟩
      (show (Context.ofSettings default).overrides.priorityFor _ = none from rfl) owns_mixedFactors
      (Bindings.distinct_of_nodup (by decide))
      (fun p m hm => (by decide : ∀ e ∈ mixedFactors.entries, e.2.desc.IsPositive) (p, m)
        ((OrderedMap.get?_eq_some_iff _).1 hm))
      (List.mem_cons_of_mem _ (List.mem_singleton_self (MatMul.referenceKernel .single)))
      (s := ⟨{}, ()⟩) rfl
  cases hx.1
  cases hy.1
  cases ht.1
  cases Shape.ofSizes_injective hxshape
  cases Shape.ofSizes_injective htshape
  refine ⟨f, hselect, e, w₁, hmake, e', w₂, hexecute, ?_, ?_, ?_⟩
  · rw [helement 0 (by decide) 0 (by decide)]
    decide +kernel
  · rw [helement 0 (by decide) 1 (by decide)]
    decide +kernel
  · intro c hc
    match c, hc with
    | 0, _ => exact hinputs (.source 0) _ rfl rfl
    | 1, _ => exact hinputs .weights _ rfl rfl
    | 2, _ => exact hinputs .bias _ rfl rfl

end StandardOperation

end KernelDispatch
