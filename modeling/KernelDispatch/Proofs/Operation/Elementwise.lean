import KernelDispatch.Operation.Elementwise
import KernelDispatch.Proofs.Dispatch.Foresight
import KernelDispatch.Proofs.Operation.Operands

/-
  Elementwise kernels by descriptors. Operands are accepted when each source has the shape and the
  layout of the destination (`accepts_eq_ok_true_iff`), and selection for a pattern foresees all
  operands that match it (`foresees`).
-/

namespace KernelDispatch

namespace Elementwise

variable {σ : Type} (arith : Arithmetic) (op : Elementwise) (constraints : Constraints)

/-! ## What is accepted -/

/-- Each source has the shape and the layout of the destination. -/
def Uniform (op : Elementwise) (ds : Descriptors) : Prop :=
  ∃ t, ds.get? (.destination 0) = some t ∧
    ∀ p ∈ op.sources, ∃ d, ds.get? p = some d ∧ d.shape = t.shape ∧ d.layout = t.layout

theorem accepts_eq (b : Bindings) : op.accepts b =
    match b.descriptors.get? (.destination 0) with
    | none => .error (.unbound (.destination 0))
    | some t => .ok (op.sources.all fun p => (b.descriptors.get? p).any fun d =>
        d.shape == t.shape && d.layout == t.layout) := by
  have hany : ∀ p (f : Descriptor → Bool),
      ((b.get? p).any fun m => f m.desc) = (b.descriptors.get? p).any f := by
    intro p f
    rw [Bindings.get?_descriptors]
    cases b.get? p <;> rfl
  unfold accepts Bindings.require
  rw [Bindings.get?_descriptors]
  cases b.get? (.destination 0) with
  | none => rfl
  | some target =>
    show Except.ok (op.sources.all fun p => (b.get? p).any fun m =>
      m.desc.shape == target.desc.shape && m.desc.layout == target.desc.layout) = _
    simp only [hany _ fun d => d.shape == target.desc.shape && d.layout == target.desc.layout]
    rfl

theorem accepts_ofDescriptors (b : Bindings) :
    op.accepts (.ofDescriptors b.descriptors) = op.accepts b := by
  rw [accepts_eq, accepts_eq, Bindings.descriptors_ofDescriptors]

theorem accepts_eq_ok_true_iff (b : Bindings) :
    op.accepts b = .ok true ↔ op.Uniform b.descriptors := by
  rw [accepts_eq, Uniform]
  cases b.descriptors.get? (.destination 0) with
  | none => simp
  | some t =>
    simp only [Except.ok.injEq, List.all_eq_true, Option.some.injEq, exists_eq_left',
      Option.any_eq_true, Bool.and_eq_true, beq_iff_eq]

/-! ## What is supported -/

theorem fits_iff (ds : Descriptors) : op.fits ds = true ↔
    ∃ t, ds.get? (.destination 0) = some t ∧
      (∀ p ∈ op.sources, ∃ d, ds.get? p = some d ∧ d.rank = t.rank) ∧ ds.allSingle = true := by
  unfold fits
  cases ds.get? (.destination 0) with
  | none => simp
  | some t =>
    simp only [Bool.and_eq_true, List.all_eq_true, Option.some.injEq, exists_eq_left',
      Option.any_eq_true, beq_iff_eq]

/-- Whether operands fit depends on what a pattern tells. -/
theorem fits_eq {ds pattern : Descriptors} (h : ds.Narrow pattern) :
    op.fits ds = op.fits pattern := by
  have hrank : ∀ d t d' t' : Descriptor, d.Narrows t → d'.Narrows t' →
      (d'.rank == d.rank) = (t'.rank == t.rank) := by
    intro d t d' t' hm hm'
    rw [hm.rank_eq, hm'.rank_eq]
  unfold fits
  rcases h.get? (.destination 0) with ⟨hd, ht⟩ | ⟨d, t, hd, ht, hm⟩
  · rw [hd, ht]
  · rw [hd, ht, h.allSingle_eq]
    simp only
    congr 1
    congr 1
    funext p
    exact h.any_eq (fun d' t' hm' => hrank d t d' t' hm hm') p

theorem supportsShared_eq {ds pattern : Descriptors} (h : ds.Narrow pattern) :
    op.supportsShared ds constraints = op.supportsShared pattern constraints := by
  unfold supportsShared
  rw [op.fits_eq h, h.admits_eq]
  congr 2
  refine h.any_eq (fun d t hm => ?_) _
  rw [hm.layout]
  exact h.allInLayout_eq t.layout

theorem supportsBlocked_of_narrow {ds pattern : Descriptors} (h : ds.Narrow pattern)
    (hds : op.supportsBlocked ds constraints = true) :
    op.supportsBlocked pattern constraints = true := by
  unfold supportsBlocked at hds ⊢
  rw [op.fits_eq h, h.admits_eq, h.allInLayout_eq, Bool.and_eq_true, Bool.and_eq_true] at hds
  obtain ⟨⟨hfits, hsize⟩, hadmits⟩ := hds
  rw [Bool.and_eq_true, Bool.and_eq_true]
  refine ⟨⟨hfits, ?_⟩, hadmits⟩
  cases hn : pattern.size? (.source 0) 1 with
  | none => rfl
  | some n =>
    rw [h.size? hn] at hsize
    exact hsize

theorem allInLayout_of_supportsShared {ds : Descriptors}
    (h : op.supportsShared ds constraints = true) :
    ∃ t, ds.get? (.destination 0) = some t ∧ ds.allInLayout t.layout = true := by
  unfold supportsShared at h
  rw [Bool.and_eq_true, Bool.and_eq_true, Option.any_eq_true] at h
  exact h.1.2

theorem fits_of_supportsShared {ds : Descriptors} (h : op.supportsShared ds constraints = true) :
    op.fits ds = true := by
  unfold supportsShared at h
  rw [Bool.and_eq_true, Bool.and_eq_true] at h
  exact h.1.1

/-- Operands in blocks of eight share a layout. -/
theorem supportsShared_of_supportsBlocked {ds : Descriptors}
    (h : op.supportsBlocked ds constraints = true) : op.supportsShared ds constraints = true := by
  unfold supportsBlocked at h
  rw [Bool.and_eq_true, Bool.and_eq_true, Bool.and_eq_true] at h
  obtain ⟨⟨⟨hfits, hlayout⟩, -⟩, hadmits⟩ := h
  obtain ⟨t, ht, -⟩ := (op.fits_iff ds).1 hfits
  have hblocked := (Descriptors.allInLayout_iff ds _).1 hlayout _ t ht
  unfold supportsShared
  rw [hfits, hadmits, ht, Option.any_some, hblocked, hlayout]
  rfl

theorem source_zero_mem_sources : Operand.source 0 ∈ op.sources := by
  cases op <;> simp [sources, arity]

/-- Operands that exist in blocks have channels, so a number of channels that is not ruled out fills
    whole blocks. -/
theorem fillsBlocks_of_supportsBlocked {ds : Descriptors} (hall : ds.Allocatable)
    (h : op.supportsBlocked ds constraints = true) :
    (ds.size? (.source 0) 1).any (· % block == 0) = true := by
  unfold supportsBlocked at h
  rw [Bool.and_eq_true, Bool.and_eq_true, Bool.and_eq_true] at h
  obtain ⟨⟨⟨hfits, hlayout⟩, hsize⟩, -⟩ := h
  obtain ⟨_, _, hsources, -⟩ := (op.fits_iff ds).1 hfits
  obtain ⟨d, hd, -⟩ := hsources _ op.source_zero_mem_sources
  obtain ⟨sizes, hshape, hfit⟩ := (hall _ d hd).sizes
  rw [(Descriptors.allInLayout_iff ds _).1 hlayout _ d hd] at hfit
  obtain ⟨n, c, rest, rfl⟩ := Layout.exists_cons_of_fitsRank hfit (by simp)
  have hc : ds.size? (.source 0) 1 = some c := by
    unfold Descriptors.size? Descriptors.axis?
    rw [hd, Option.bind_some, hshape, Shape.axis?_ofSizes]
    rfl
  rw [hc] at hsize ⊢
  exact hsize

/-- The sources have the shape of the destination. -/
def SameShapes (op : Elementwise) (ds : Descriptors) : Prop :=
  ∀ p ∈ op.sources, ∀ d t, ds.get? p = some d → ds.get? (.destination 0) = some t →
    d.shape = t.shape

/-- Operands that are supported and of one shape are accepted. -/
theorem uniform_of_supportsShared {ds : Descriptors} (h : op.supportsShared ds constraints = true)
    (hshapes : op.SameShapes ds) : op.Uniform ds := by
  obtain ⟨t, ht, hlayout⟩ := op.allInLayout_of_supportsShared constraints h
  obtain ⟨t', ht', hranks, -⟩ := (op.fits_iff ds).1 (op.fits_of_supportsShared constraints h)
  rw [ht] at ht'
  cases ht'
  refine ⟨t, ht, fun p hp => ?_⟩
  obtain ⟨d, hd, -⟩ := hranks p hp
  exact ⟨d, hd, hshapes p hp d t hd ht, (Descriptors.allInLayout_iff ds _).1 hlayout p d hd⟩

/-! ## Steady kernels -/

/-- The kernel for channels in whole blocks. -/
def steadyBlocked : SteadyKernel σ op constraints where
  kernel := blockedKernel arith
  supports ds := op.supportsBlocked ds constraints
  acceptsShapes ds := (ds.size? (.source 0) 1).any (· % block == 0)
  preferred _ := none
  takes := Runner.takes op.accepts
  supports_eq _ _ := rfl
  acceptsShapes_eq _ _ := rfl
  preferred_eq _ _ := rfl
  builds _ _ := ⟨_, rfl, Runner.onStore_answers op.accepts_ofDescriptors⟩

/-- The kernel for any shared layout. -/
def steadyShared : SteadyKernel σ op constraints where
  kernel := sharedKernel arith
  supports ds := op.supportsShared ds constraints
  acceptsShapes _ := true
  preferred _ := none
  takes := Runner.takes op.accepts
  supports_eq _ _ := rfl
  acceptsShapes_eq _ _ := rfl
  preferred_eq _ _ := rfl
  builds _ _ := ⟨_, rfl, Runner.onStore_answers op.accepts_ofDescriptors⟩

def steadyKernels : List (SteadyKernel σ op constraints) :=
  [steadyBlocked arith op constraints, steadyShared arith op constraints]

theorem kernel_steadyKernels : (steadyKernels (σ := σ) arith op constraints).map
    SteadyKernel.kernel = kernels arith := rfl

theorem neverPrefers_of_mem {k : SteadyKernel σ op constraints}
    (hk : k ∈ steadyKernels arith op constraints) : k.NeverPrefers := by
  rcases List.mem_cons.1 hk with rfl | hk
  · exact fun _ => rfl
  · obtain rfl := List.mem_singleton.1 hk
    exact fun _ => rfl

theorem foresees (pattern : Descriptors) :
    Foresees (steadyKernels (σ := σ) arith op constraints) pattern
      fun ds => ds.Match pattern ∧ ds.Allocatable := by
  refine ⟨fun k hk => ?_, fun k hk ds hds h => ?_, fun k hk ds ds' _ _ => ?_,
    fun k hk ds _ => (neverPrefers_of_mem arith op constraints hk).keepsShapes ds,
    fun k hk _ ds _ => (neverPrefers_of_mem arith op constraints hk).staged ds⟩
  · obtain rfl := List.mem_singleton.1 hk
    rfl
  · rcases List.mem_cons.1 hk with rfl | hk
    · exact op.supportsBlocked_of_narrow constraints hds.1.narrow h
    · obtain rfl := List.mem_singleton.1 hk
      exact (op.supportsShared_eq constraints hds.1.narrow).symm.trans h
  · have hnever := neverPrefers_of_mem arith op constraints hk
    rw [hnever.route_eq, hnever.route_eq]

/-- A kernel takes existing operands of one shape that it supports. -/
theorem response_of_supports {k : SteadyKernel σ op constraints}
    (hk : k ∈ steadyKernels arith op constraints) {ds : Descriptors} (hall : ds.Allocatable)
    (hsupports : k.supports ds = true) (hshapes : op.SameShapes ds) :
    k.response ds = .ok true := by
  have hnever := neverPrefers_of_mem arith op constraints hk
  have haccepts : k.acceptsShapes ds = true ∧ k.takes ds = Runner.takes op.accepts ds ∧
      op.supportsShared ds constraints = true := by
    rcases List.mem_cons.1 hk with rfl | hk
    · exact ⟨op.fillsBlocks_of_supportsBlocked constraints hall hsupports, rfl,
        op.supportsShared_of_supportsBlocked constraints hsupports⟩
    · obtain rfl := List.mem_singleton.1 hk
      exact ⟨rfl, rfl, hsupports⟩
  obtain ⟨hacc, htakes, hshared⟩ := haccepts
  refine response_of_verdict hsupports hacc ?_
  rw [SteadyKernel.verdict_of_no_preference (hnever ds), htakes,
    Runner.takes_eq_ok_true op.accepts_eq_ok_true_iff
      (op.uniform_of_supportsShared constraints hshared hshapes)]

end Elementwise

end KernelDispatch
