import KernelDispatch.Operation.Pooling
import KernelDispatch.Proofs.Dispatch.Foresight
import KernelDispatch.Proofs.Operation.Operands

/-
  The pooling kernel by descriptors. The operands have a geometry exactly when their sizes are those
  of images before and after the pooling and their channels are last (`geometry_eq_ok_iff`), and
  operands that exist and are supported have such sizes (`exists_pools`). Selection for a pattern
  foresees all operands that match it (`foresees`).
-/

namespace KernelDispatch

namespace PoolGeometry

/-- The sizes of the input. -/
def inputSizes (g : PoolGeometry) : List Nat :=
  [g.batch, g.channels, g.input.height, g.input.width]

/-- The sizes of the output. -/
def outputSizes (g : PoolGeometry) : List Nat :=
  [g.batch, g.channels, g.output.height, g.output.width]

end PoolGeometry

namespace Pooling

variable {σ : Type} (arith : Arithmetic) (op : Pooling) (constraints : Constraints)

/-! ## Sizes -/

/-- The operands have the sizes of images before and after the pooling. -/
structure Pools (ds : Descriptors) (g : PoolGeometry) : Prop where
  source : ds.HasSizes (.source 0) g.inputSizes
  target : ds.HasSizes (.destination 0) g.outputSizes
  height : op.outputExtent? 0 g.input.height = some g.output.height
  width : op.outputExtent? 1 g.input.width = some g.output.width

/-- The output extent is the largest number of windows that fit one behind the other. -/
theorem forall_fits_iff {axis : Fin 2} {n m : Nat} (h : op.outputExtent? axis n = some m)
    (count : Nat) :
    (∀ place < count, place * op.stride.along axis + op.window.along axis ≤ n) ↔ count ≤ m := by
  unfold outputExtent? at h
  dsimp only at h
  split at h
  · cases h
  · rename_i hfits
    rw [Option.some.injEq] at h
    have hstride : 0 < op.stride.along axis := by omega
    have hplace : ∀ place, place * op.stride.along axis + op.window.along axis ≤ n ↔
        place < m := by
      intro place
      rw [← h, Nat.lt_succ_iff, Nat.le_div_iff_mul_le hstride]
      omega
    constructor
    · intro hall
      refine Nat.le_of_not_lt fun hlt => ?_
      exact Nat.lt_irrefl m ((hplace m).1 (hall m hlt))
    · exact fun hle place hlt => (hplace place).2 (Nat.lt_of_lt_of_le hlt hle)

theorem outputExtent_eq_ok_iff (axis : Fin 2) (n m : Nat) :
    op.outputExtent axis n = .ok m ↔ op.outputExtent? axis n = some m := by
  unfold outputExtent
  cases op.outputExtent? axis n <;> simp

/-- Source and destination have their channels last. -/
def ChannelsLast (ds : Descriptors) : Prop :=
  ∀ p ∈ [Operand.source 0, .destination 0], ∀ d, ds.get? p = some d → d.layout = .channelsLast

theorem geometry_eq_ok_iff (b : Bindings) (g : PoolGeometry) :
    op.geometry b = .ok g ↔ op.Pools b.descriptors g ∧ ChannelsLast b.descriptors := by
  unfold geometry
  simp only [bind_eq_ok_iff, Bindings.requireSingle_eq_ok_iff]
  constructor
  · rintro ⟨source, ⟨hsource, hsourceType⟩, target, ⟨htarget, htargetType⟩, h⟩
    have hsource' := Bindings.descriptors_get?_of_get? hsource
    have htarget' := Bindings.descriptors_get?_of_get? htarget
    split at h
    · cases h
    · rename_i hlayouts
      simp only [not_or, Decidable.not_not] at hlayouts
      simp only [bind_eq_ok_iff, Descriptor.concreteSizes_eq_ok_iff] at h
      obtain ⟨sizes, hsizes, targetSizes, htargetSizes, h⟩ := h
      split at h
      · simp only [bind_eq_ok_iff, outputExtent_eq_ok_iff] at h
        obtain ⟨height, hheight, width, hwidth, h⟩ := h
        split at h
        · cases h
        · rename_i hexpected
          rw [Decidable.not_not.1 hexpected] at htargetSizes
          cases h
          refine ⟨⟨⟨_, hsource', hsourceType, hsizes⟩, ⟨_, htarget', htargetType, htargetSizes⟩,
            hheight, hwidth⟩, fun p hp d hd => ?_⟩
          simp only [List.mem_cons, List.not_mem_nil, or_false] at hp
          rcases hp with rfl | rfl
          · rw [hsource'] at hd
            cases hd
            exact hlayouts.1
          · rw [htarget'] at hd
            cases hd
            exact hlayouts.2
      · cases h
  · rintro ⟨⟨⟨d, hd, hdtype, hdshape⟩, ⟨t, ht, httype, htshape⟩, hheight, hwidth⟩, hlayouts⟩
    have hsourceLayout := hlayouts _ (by simp) d hd
    have htargetLayout := hlayouts _ (by simp) t ht
    obtain ⟨source, hsource, rfl⟩ := (Bindings.descriptors_get?_eq_some_iff _ _ _).1 hd
    obtain ⟨target, htarget, rfl⟩ := (Bindings.descriptors_get?_eq_some_iff _ _ _).1 ht
    refine ⟨source, ⟨hsource, hdtype⟩, target, ⟨htarget, httype⟩, ?_⟩
    rw [if_neg (by simp [hsourceLayout, htargetLayout])]
    simp only [bind_eq_ok_iff, Descriptor.concreteSizes_eq_ok_iff]
    refine ⟨[g.batch, g.channels, g.input.height, g.input.width], hdshape,
      [g.batch, g.channels, g.output.height, g.output.width], htshape, ?_⟩
    simp only [bind_eq_ok_iff, outputExtent_eq_ok_iff]
    refine ⟨_, hheight, _, hwidth, ?_⟩
    rw [if_neg (by simp)]
    rfl

theorem Pools.unique {ds : Descriptors} {g g' : PoolGeometry} (h : op.Pools ds g)
    (h' : op.Pools ds g') : g = g' := by
  have hsource := h.source.unique h'.source
  have htarget := h.target.unique h'.target
  obtain ⟨batch, channels, ⟨_, _⟩, ⟨_, _⟩⟩ := g
  obtain ⟨batch', channels', ⟨_, _⟩, ⟨_, _⟩⟩ := g'
  simp_all [PoolGeometry.inputSizes, PoolGeometry.outputSizes]

/-- Layouts make no difference to the sizes. -/
theorem Pools.inLayout {ds : Descriptors} {g : PoolGeometry} (h : op.Pools ds g) (l : Layout) :
    op.Pools (ds.inLayout l) g :=
  ⟨h.source.inLayout l, h.target.inLayout l, h.height, h.width⟩

/-! ## What is accepted -/

/-- The operands have the sizes of a pooling, and their channels are last. -/
def Suitable (ds : Descriptors) : Prop := (∃ g, op.Pools ds g) ∧ ChannelsLast ds

theorem accepts_eq_ok_true_iff (b : Bindings) :
    op.accepts b = .ok true ↔ op.Suitable b.descriptors := by
  unfold accepts Suitable
  rw [Except.ok.injEq]
  constructor
  · intro h
    cases hg : op.geometry b with
    | error e =>
      rw [hg] at h
      cases h
    | ok g =>
      obtain ⟨hpools, hlayouts⟩ := (op.geometry_eq_ok_iff b g).1 hg
      exact ⟨⟨g, hpools⟩, hlayouts⟩
  · rintro ⟨⟨g, hpools⟩, hlayouts⟩
    rw [(op.geometry_eq_ok_iff b g).2 ⟨hpools, hlayouts⟩]
    rfl

theorem accepts_ofDescriptors (b : Bindings) :
    op.accepts (.ofDescriptors b.descriptors) = op.accepts b :=
  Runner.accepts_ofDescriptors (fun _ => rfl) op.accepts_eq_ok_true_iff b

/-! ## What is supported -/

/-- Operands that exist and are supported have the sizes of a pooling. -/
theorem exists_pools {ds : Descriptors} (hall : ds.Allocatable)
    (h : op.supports ds constraints = true) : ∃ g, op.Pools ds g := by
  simp only [supports, Bool.and_eq_true, List.all_cons, List.all_nil, Option.any_eq_true,
    beq_iff_eq] at h
  obtain ⟨⟨⟨⟨⟨⟨⟨⟨⟨⟨d, hd, hrank⟩, ⟨t, ht, htrank⟩, -⟩, -⟩, -⟩, hheight⟩, hwidth⟩, hbatch⟩,
    hchannels⟩, hsingle⟩, -⟩ := h
  have hsingle := (Descriptors.allSingle_iff ds).1 hsingle
  have hfour : ∀ p d, ds.get? p = some d → d.rank = 4 →
      ∃ a b m n, d.shape = .ofSizes [a, b, m, n] := by
    intro p d hd hrank
    obtain ⟨sizes, hshape, -⟩ := (hall p d hd).sizes
    rw [Descriptor.rank, hshape, Shape.rank_ofSizes] at hrank
    obtain ⟨a, b, m, n, rfl⟩ := List.length_eq_four.1 hrank
    exact ⟨a, b, m, n, hshape⟩
  obtain ⟨batch, channels, height, width, hdshape⟩ := hfour _ d hd hrank
  obtain ⟨batch', channels', height', width', htshape⟩ := hfour _ t ht htrank
  simp only [axisFits, Descriptors.axis?, hd, ht, Option.bind_some, hdshape, htshape,
    Shape.axis?_ofSizes] at hheight hwidth hbatch hchannels
  have hextent : ∀ (axis : Fin 2) n m, ((op.outputExtent? axis n).any fun output =>
      Extent.bothAgree (some (.known output)) (some (.known m))) = true →
        op.outputExtent? axis n = some m := by
    intro axis n m hany
    obtain ⟨output, houtput, hagree⟩ := (Option.any_eq_true _ _).1 hany
    rw [houtput]
    simpa [Extent.bothAgree, Extent.agrees] using hagree
  have hbatch : batch = batch' := by simpa [Extent.bothAgree, Extent.agrees] using hbatch
  have hchannels : channels = channels' := by
    simpa [Extent.bothAgree, Extent.agrees] using hchannels
  refine ⟨⟨batch, channels, ⟨height, width⟩, ⟨height', width'⟩⟩, ⟨d, hd, hsingle _ d hd, hdshape⟩,
    ⟨t, ht, hsingle _ t ht, ?_⟩, hextent 0 height height' hheight, hextent 1 width width' hwidth⟩
  rw [htshape, ← hbatch, ← hchannels]
  rfl

/-- What can fit on known extents fits with unknown ones. -/
theorem axisFits_of_narrow {ds pattern : Descriptors} (h : ds.Narrow pattern) {axis : Fin 2}
    (hfits : op.axisFits ds axis = true) : op.axisFits pattern axis = true := by
  have hsource := h.axis? (.source 0) (axis.val + 2)
  have htarget := h.axis? (.destination 0) (axis.val + 2)
  unfold axisFits at hfits ⊢
  generalize ds.axis? (.source 0) (axis.val + 2) = a at hsource hfits
  generalize pattern.axis? (.source 0) (axis.val + 2) = a' at hsource ⊢
  cases hsource with
  | absent => rfl
  | @present e e' he =>
    cases e' with
    | unknown => rfl
    | known n =>
      rw [Extent.eq_of_known_covers he] at hfits
      obtain ⟨output, houtput, hagree⟩ := (Option.any_eq_true _ _).1 hfits
      have hself : Extent.Narrows (some (.known output)) (some (.known output)) :=
        .present (beq_self_eq_true output)
      exact (Option.any_eq_true _ _).2 ⟨output, houtput, hself.bothAgree htarget hagree⟩

theorem supports_of_narrow {ds pattern : Descriptors} (h : ds.Narrow pattern)
    (hds : op.supports ds constraints = true) : op.supports pattern constraints = true := by
  have hrank : ∀ p, (ds.get? p).any (·.rank == 4) = (pattern.get? p).any (·.rank == 4) :=
    fun p => h.any_eq (fun d t hm => by rw [hm.rank_eq]) p
  simp only [supports, Bool.and_eq_true, hrank, h.size_eq, h.admits_eq, h.allSingle_eq] at hds ⊢
  obtain ⟨⟨⟨⟨⟨⟨⟨⟨hranks, hsize⟩, hwindow⟩, hheight⟩, hwidth⟩, hbatch⟩, hchannels⟩, hsingle⟩,
    hadmits⟩ := hds
  exact ⟨⟨⟨⟨⟨⟨⟨⟨hranks, hsize⟩, hwindow⟩, op.axisFits_of_narrow h hheight⟩,
    op.axisFits_of_narrow h hwidth⟩, h.bothAgree hbatch⟩, h.bothAgree hchannels⟩, hsingle⟩, hadmits⟩

theorem supports_of_match {ds pattern : Descriptors} (h : ds.Match pattern)
    (hds : op.supports ds constraints = true) : op.supports pattern constraints = true :=
  op.supports_of_narrow constraints h.narrow hds

/-- There are no other operands than a source and a destination, and both are batches of images. -/
theorem rank_of_supports {ds : Descriptors} (h : op.supports ds constraints = true) {p : Operand}
    {d : Descriptor} (hd : ds.get? p = some d) : d.rank = 4 := by
  simp only [supports, Bool.and_eq_true, List.all_cons, List.all_nil, Option.any_eq_true,
    beq_iff_eq] at h
  obtain ⟨⟨⟨⟨⟨⟨⟨⟨⟨⟨s, hs, hsrank⟩, ⟨t, ht, htrank⟩, -⟩, hsize⟩, -⟩, -⟩, -⟩, -⟩, -⟩, -⟩, -⟩ := h
  have hmem := (OrderedMap.get?_eq_some_iff _).1 hd
  have hsmem := (OrderedMap.get?_eq_some_iff _).1 hs
  have htmem := (OrderedMap.get?_eq_some_iff _).1 ht
  unfold OrderedMap.size at hsize
  obtain ⟨a, b, hentries⟩ := List.length_eq_two.1 hsize
  rw [hentries] at hmem hsmem htmem
  simp only [List.mem_cons, List.not_mem_nil, or_false] at hmem hsmem htmem
  rcases hsmem with rfl | rfl <;> rcases htmem with htmem | htmem <;> cases htmem <;>
    rcases hmem with hmem | hmem <;> cases hmem <;> assumption

theorem allocatable_channelsLast {ds pattern : Descriptors} (h : ds.Match pattern)
    (hall : ds.Allocatable) (hsupports : op.supports pattern constraints = true) :
    (ds.inLayout .channelsLast).Allocatable := by
  intro p d hd
  rw [Descriptors.get?_inLayout, Option.map_eq_some_iff] at hd
  obtain ⟨d', hd', rfl⟩ := hd
  obtain ⟨t, ht, hm⟩ := h.bound p d' hd'
  refine (hall p d' hd').inLayout hm.positive rfl ?_
  rw [hm.narrows.rank_eq, op.rank_of_supports constraints hsupports ht]
  rfl

/-! ## The steady kernel -/

def steadyKernel : SteadyKernel σ op constraints where
  kernel := kernel arith
  supports ds := op.supports ds constraints
  acceptsShapes _ := true
  preferred ds := ds.relaid? fun _ _ => .channelsLast
  takes := Runner.takes op.accepts
  supports_eq _ _ := rfl
  acceptsShapes_eq _ _ := rfl
  preferred_eq _ _ := rfl
  builds _ _ := ⟨_, rfl, Runner.onStore_answers op.accepts_ofDescriptors⟩

def steadyKernels : List (SteadyKernel σ op constraints) := [steadyKernel arith op constraints]

theorem kernel_steadyKernels : (steadyKernels (σ := σ) arith op constraints).map
    SteadyKernel.kernel = kernels arith := rfl

theorem prefersLayout_steadyKernel :
    (steadyKernel (σ := σ) arith op constraints).PrefersLayout .channelsLast := fun _ => rfl

theorem foresees (pattern : Descriptors) :
    Foresees (steadyKernels (σ := σ) arith op constraints) pattern
      fun ds => ds.Match pattern ∧ ds.Allocatable := by
  have hprefers := prefersLayout_steadyKernel (σ := σ) arith op constraints
  refine ⟨?_, fun k hk ds hds h => ?_, fun k hk ds ds' hds hds' => ?_, fun k hk ds hds => ?_,
    fun k hk hsupports ds hds => ?_⟩
  · rintro k ⟨⟩
  all_goals obtain rfl := List.mem_singleton.1 hk
  · exact op.supports_of_match constraints hds.1 h
  · exact hprefers.route_eq (hds.1.narrow.formats_eq.trans hds'.1.narrow.formats_eq.symm)
  · exact hprefers.keepsShapes ds
  · exact hprefers.staged (op.allocatable_channelsLast constraints hds.1 hds.2 hsupports)

/-- The kernel takes existing operands with positive extents that it supports. -/
theorem response_of_supports {k : SteadyKernel σ op constraints}
    (hk : k ∈ steadyKernels arith op constraints) {ds : Descriptors} (hall : ds.Allocatable)
    (hlast : (ds.inLayout .channelsLast).Allocatable) (hsupports : k.supports ds = true) :
    k.response ds = .ok true := by
  obtain rfl := List.mem_singleton.1 hk
  obtain ⟨g, hg⟩ := op.exists_pools constraints hall hsupports
  refine response_of_verdict hsupports rfl ?_
  rw [(prefersLayout_steadyKernel arith op constraints).verdict_eq hall hlast]
  refine Runner.takes_eq_ok_true op.accepts_eq_ok_true_iff ⟨⟨g, hg.inLayout op _⟩, fun p _ d hd => ?_⟩
  exact (Descriptors.allInLayout_iff _ _).1 (Descriptors.allInLayout_inLayout ds _) p d hd

end Pooling

end KernelDispatch
