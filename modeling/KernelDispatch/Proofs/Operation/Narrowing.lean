import KernelDispatch.Proofs.Operation.Negotiation

/-
  Selection for operands with unknown extents. A standard kernel that supports operands supports
  every pattern that they narrow (`supports_of_narrow`), so a selection for the pattern finds all
  that one finds for the operands, in the order of the catalogue (`selection_keeps_choices`). What
  is selected before the extents are known rules out nothing that could be selected afterwards.
-/

namespace KernelDispatch

namespace StandardOperation

variable (arith : Arithmetic)

/-- A kernel that supports operands supports the patterns that they narrow. -/
theorem supports_of_narrow {i : StandardOperation} {attrs : i.Attributes} {c : Constraints}
    {ds pattern : Descriptors} (h : ds.Narrow pattern) {k : Kernel i.Attributes Unit}
    (hk : k ∈ (catalogue arith).entries i) {s : Session Unit}
    (hsupports : (k.supports attrs ds c s).1 = true) (t : Session Unit) :
    (k.supports attrs pattern c t).1 = true := by
  refine forall_mem_entries arith (P := fun i k => ∀ attrs, (k.supports attrs ds c s).1 = true →
    (k.supports attrs pattern c t).1 = true) ?_ ?_ ?_ ?_ ?_ i k hk attrs hsupports
  · exact fun (op : Elementwise) => op.supportsBlocked_of_narrow c h
  · exact fun (op : Elementwise) => (op.supportsShared_eq c h).symm.trans
  · exact fun (op : MatMul) => op.supportsTiled_of_narrow c h
  · exact fun (op : MatMul) => op.supportsAny_of_narrow c h
  · exact fun (op : Pooling) => op.supports_of_narrow c h

/-- Let operands narrow a pattern; either may have unknown extents. With no name prescribed, a
    selection for the pattern finds the kernels that support it, in the order of the catalogue, and
    every kernel that supports the operands is one of them. If a selection for the operands finds
    candidates, one for the pattern does, and finds all of these in the same order. -/
theorem selection_keeps_choices (i : StandardOperation) (attrs : i.Attributes) (c : Constraints)
    {ds pattern : Descriptors} (h : ds.Narrow pattern) :
    (∀ k ∈ (catalogue arith).entries i, ∀ s, (k.supports attrs ds c s).1 = true → ∀ t,
      (k.supports attrs pattern c t).1 = true ∧
        ∃ found, candidates ((catalogue arith).entries i) attrs pattern c none t = (.ok found, t) ∧
          found = (((catalogue arith).entries i).filter fun k => (k.supports attrs pattern c t).1) ∧
          k ∈ found) ∧
      ∀ s s' found, candidates ((catalogue arith).entries i) attrs ds c none s = (.ok found, s') →
        ∀ t, ∃ found',
          candidates ((catalogue arith).entries i) attrs pattern c none t = (.ok found', t) ∧
            found.Sublist found' := by
  have hks := negotiable_entries arith i attrs
  constructor
  · intro k hk s hsupports t
    have hpattern := supports_of_narrow arith h hk hsupports t
    exact ⟨hpattern, hks.candidates_of_supports hk hpattern⟩
  · intro s s' found hfound t
    exact hks.candidates_sublist hfound fun k hk hsupports =>
      supports_of_narrow arith h hk hsupports t

/-- Operands of a product of which nothing is known but that they are matrices. -/
def anyMatrices : Descriptors :=
  .ofList [(.source 0, ⟨.f32, ⟨[.unknown, .unknown]⟩, .planar⟩),
    (.weights, ⟨.f32, ⟨[.unknown, .unknown]⟩, .planar⟩),
    (.destination 0, ⟨.f32, ⟨[.unknown, .unknown]⟩, .planar⟩)]

/-- Both kernels are found for four columns and any number of rows, so both are when no extent is
    known. -/
theorem any_matrices_keep_choices :
    anyRows.Narrow anyMatrices ∧ ∃ found found',
      candidates ((catalogue .single).entries matMul) (⟨false⟩ : MatMul) anyRows ∅ none ⟨{}, ()⟩ =
        (.ok found, ⟨{}, ()⟩) ∧
      candidates ((catalogue .single).entries matMul) (⟨false⟩ : MatMul) anyMatrices ∅ none
        ⟨{}, ()⟩ = (.ok found', ⟨{}, ()⟩) ∧
      found.map Kernel.name = ["matmul_tiled", "matmul_ref"] ∧ found.Sublist found' := by
  have hnarrow : anyRows.Narrow anyMatrices := by decide
  obtain ⟨found', hfound', hsub⟩ := (selection_keeps_choices .single matMul ⟨false⟩ ∅
    hnarrow).2 ⟨{}, ()⟩ ⟨{}, ()⟩ [MatMul.tiledKernel .single, MatMul.referenceKernel .single] rfl
      ⟨{}, ()⟩
  exact ⟨hnarrow, _, found', rfl, hfound', rfl, hsub⟩

end StandardOperation

end KernelDispatch
