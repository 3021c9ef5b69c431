import KernelDispatch.Proofs.Dispatch.Calls
import KernelDispatch.Proofs.Operation.Agreement
import KernelDispatch.Proofs.Operation.Runs

/-
  What it is worth that an update says yes. The operands then have the shapes and layouts that the
  kernel wants, but two of the kernels do not look at all element types, and one of them does not
  look at the length of the bands that it works in, which ends the program if it wraps around to
  zero: the call that follows succeeds exactly when the operands of the operation have `f32` elements
  and the program does not end (`execute_isOk_iff_of_update`). With several candidates the elements
  are `f32` whenever an update says yes, since their predicates look at the element types.
-/

namespace KernelDispatch

/-- The given operands have `f32` elements where they are bound. -/
def Descriptors.SingleAt (ds : Descriptors) (ps : List Operand) : Prop :=
  ∀ p ∈ ps, ∀ d, ds.get? p = some d → d.elementType = .f32

theorem Descriptors.SingleAt.of_allSingle {ds : Descriptors} (h : ds.allSingle = true)
    (ps : List Operand) : ds.SingleAt ps := fun p _ d hd => (allSingle_iff ds).1 h p d hd

variable {σ : Type}

/-- Updates change nothing, are answered by descriptors and report what goes wrong. After one that
    says yes, a run succeeds exactly when the given operands have `f32` elements and the program does
    not end; on operands of which `ends` holds it does. -/
structure Runner.KeepsWord (r : Runner σ) (ps : List Operand) (ends : Descriptors → Prop) :
    Prop where
  quiet : r.Quiet
  steady : r.Steady
  reports : r.ReportsUpdates
  confined : KernelDispatch.Confined r.execute
  succeeds_iff : ∀ b s, (∀ p m, b.get? p = some m → s.store.Fits m) →
    (r.update b s).1 = .ok true →
      ((r.execute b s).1 = .ok () ↔ b.descriptors.SingleAt ps ∧ ¬ ends b.descriptors)
  ends_iff : ∀ b s, (∃ e, (r.execute b s).1 = .error e ∧ e.isReported = false) ↔
    b.descriptors.SingleAt ps ∧ ends b.descriptors

/-- A runner on stores keeps its word if its run succeeds accordingly once the operands are
    accepted, and ends the program accordingly. -/
theorem Runner.onStore_keepsWord {accepts : Bindings → Except MemoryError Bool}
    {run : Bindings → Store → Except Misfit Store} {ps : List Operand} {ends : Descriptors → Prop}
    (hsteady : ∀ b, accepts (.ofDescriptors b.descriptors) = accepts b)
    (hwrites : WritesDestination run)
    (hrun : ∀ b s, (∀ p m, b.get? p = some m → s.Fits m) → accepts b = .ok true →
      ((∃ s', run b s = .ok s') ↔ b.descriptors.SingleAt ps ∧ ¬ ends b.descriptors))
    (hends : ∀ b s, run b s = .error .emptyBands ↔
      b.descriptors.SingleAt ps ∧ ends b.descriptors) :
    (onStore (σ := σ) accepts run).KeepsWord ps ends := by
  refine ⟨onStore_quiet, ⟨_, onStore_answers hsteady⟩, fun b s => .mapError fun _ => rfl,
    onStore_confined hwrites, fun b s hfits hupdate => ?_, fun b s => ?_⟩
  · rw [onStore_execute_isOk_iff]
    exact hrun b s.store hfits (accepts_of_onStore_update hupdate)
  · rw [onStore_execute_ends_iff]
    exact hends b s.store

/-- A run of which callers are told everything does not end the program. -/
theorem Reports.emptyBands_iff {x : Except Misfit Store} (h : Reports Misfit.isReported x)
    (P : Prop) : x = .error .emptyBands ↔ P ∧ False :=
  iff_of_false (fun he => by cases h _ he) And.right

/-! ## The runners -/

theorem Bindings.BindsSingle.singleAt {b : Bindings} {p : Operand} {m : Memory}
    (h : b.BindsSingle p m) {d : Descriptor} (hd : b.descriptors.get? p = some d) :
    d.elementType = .f32 := by
  rw [descriptors_get?_of_get? h.1, Option.some.injEq] at hd
  rw [← hd]
  exact h.2

/-- The bytes of a memory of `f32` elements are whole elements. -/
theorem Store.Fits.size_eq_whole {s : Store} {m : Memory} (h : s.Fits m)
    (htype : m.desc.elementType = .f32) : (s.contents m).size = 4 * ((s.contents m).size / 4) := by
  obtain ⟨sizes, hshape, -⟩ := Descriptor.Allocatable.sizes ⟨_, h⟩
  have hsize := h.size_eq htype hshape
  omega

theorem Descriptor.eq_of_fields {d d' : Descriptor} (htype : d.elementType = d'.elementType)
    (hshape : d.shape = d'.shape) (hlayout : d.layout = d'.layout) : d = d' := by
  obtain ⟨type, shape, layout⟩ := d
  cases htype
  cases hshape
  cases hlayout
  rfl

/-- Memories of one descriptor have one size. -/
theorem Store.Fits.size_eq_size {s : Store} {m m' : Memory} (h : s.Fits m) (h' : s.Fits m')
    (hdesc : m.desc = m'.desc) : (s.contents m).size = (s.contents m').size := by
  unfold Fits at h h'
  rw [hdesc, h'] at h
  exact (Except.ok.inj h).symm

variable (arith : Arithmetic)

/-- The operands of an elementwise operation. -/
def Elementwise.operands (op : Elementwise) : List Operand := .destination 0 :: op.sources

theorem Elementwise.keepsWord (op : Elementwise) :
    (op.runner (σ := σ) arith).KeepsWord op.operands fun _ => False := by
  refine Runner.onStore_keepsWord op.accepts_ofDescriptors (op.writesDestination arith)
    (fun b s hfits haccepts => ?_) fun b s => (op.run_reports arith b s).emptyBands_iff _
  rw [and_iff_left not_false]
  have huniform := (op.accepts_eq_ok_true_iff b).1 haccepts
  constructor
  · rintro ⟨s', hrun⟩ p hp d hd
    obtain ⟨t, m, m', ht, hm, hm', -⟩ := (op.run_eq_ok_iff arith b s s').1 hrun
    rcases List.mem_cons.1 hp with rfl | hp
    · exact ht.singleAt hd
    · rcases (op.mem_sources_iff p).1 hp with rfl | rfl
      · exact hm.singleAt hd
      · exact hm'.singleAt hd
  · intro hsingle
    obtain ⟨t, ht, hsources⟩ := huniform
    have httype := hsingle _ List.mem_cons_self t ht
    obtain ⟨target, htarget, rfl⟩ := (b.descriptors_get?_eq_some_iff _ _).1 ht
    have hsource : ∀ p, p ∈ op.sources → ∃ m, b.BindsSingle p m ∧ m.desc = target.desc := by
      intro p hp
      obtain ⟨d, hd, hshape, hlayout⟩ := hsources p hp
      have hdtype := hsingle p (List.mem_cons_of_mem _ hp) d hd
      obtain ⟨m, hm, rfl⟩ := (b.descriptors_get?_eq_some_iff _ _).1 hd
      exact ⟨m, ⟨hm, hdtype⟩, Descriptor.eq_of_fields (hdtype.trans httype.symm) hshape hlayout⟩
    obtain ⟨m, hm, hdesc⟩ := hsource _ ((op.mem_sources_iff _).2 (.inl rfl))
    obtain ⟨m', hm', hdesc'⟩ := hsource _ ((op.mem_sources_iff _).2 (.inr rfl))
    have hfit := hfits _ m hm.1
    refine op.exists_run_of_sizes arith ⟨htarget, httype⟩ hm hm' ?_ ?_
    · exact (hfits _ m' hm'.1).size_eq_size hfit (hdesc'.trans hdesc.symm)
    · rw [(hfits _ target htarget).size_eq_size hfit hdesc.symm]
      exact hfit.size_eq_whole hm.2

/-- The operands of a matrix product. -/
def MatMul.operands : List Operand := [.source 0, .weights, .bias, .destination 0]

/-- The operands make whole tiles, and the length of a band of them wraps around to zero. -/
def MatMul.EmptyBands (op : MatMul) (ds : Descriptors) : Prop :=
  ∃ z, op.Resolves ds z ∧ z.tiles = true ∧ z.wraps = true

/-- Operands that have the sizes of a product have `f32` elements if the bias does. -/
theorem MatMul.exists_biasElements_iff_singleAt (op : MatMul) {b : Bindings} {z : ProductSizes}
    (hz : op.Resolves b.descriptors z) (s : Store) :
    (∃ bias, biasElements b s = .ok bias) ↔ b.descriptors.SingleAt operands := by
  obtain ⟨m, m', t, hm, hm', ht⟩ := hz.binds
  rw [exists_biasElements_iff]
  constructor
  · intro h p hp d hd
    simp only [operands, List.mem_cons, List.not_mem_nil, or_false] at hp
    rcases hp with rfl | rfl | rfl | rfl
    · exact hm.singleAt hd
    · exact hm'.singleAt hd
    · obtain ⟨n, hn, rfl⟩ := (b.descriptors_get?_eq_some_iff _ _).1 hd
      exact h n hn
    · exact ht.singleAt hd
  · intro h n hn
    exact h .bias (by simp [operands]) n.desc (Bindings.descriptors_get?_of_get? hn)

/-- The tiled schedule goes with one name only. -/
theorem MatMul.keepsWord (op : MatMul) {name : String} {schedule : Product.Schedule}
    (hname : name = tiledName ↔ schedule = .byTile) :
    (op.runner (σ := σ) arith name schedule).KeepsWord operands
      fun ds => name = tiledName ∧ op.EmptyBands ds := by
  refine Runner.onStore_keepsWord (op.accepts_ofDescriptors schedule)
    (op.writesDestination arith name schedule) (fun b s hfits haccepts => ?_) fun b s => ?_
  · obtain ⟨hplanar, z, hz, htiles⟩ := (op.accepts_eq_ok_true_iff schedule b).1 haccepts
    obtain ⟨m, m', t, hm, hm', ht⟩ := hz.binds
    rw [← op.exists_biasElements_iff_singleAt hz s, hname]
    constructor
    · rintro ⟨s', hrun⟩
      obtain ⟨z', -, -, bias, -, hz', -, -, hb, -, -, hwraps, -⟩ :=
        (op.run_eq_ok_iff arith name schedule b s s').1 hrun
      refine ⟨⟨bias, hb⟩, ?_⟩
      rintro ⟨hs, z₁, hz₁, -, hwraps₁⟩
      rw [hz₁.unique op hz', hwraps hs] at hwraps₁
      cases hwraps₁
    · rintro ⟨⟨bias, hb⟩, hbands⟩
      refine ⟨_, (op.run_eq_ok_iff arith name schedule b s _).2
        ⟨z, m, m', bias, t, hz, hm, hm', hb, ht, fun _ => htiles, fun hs => ?_,
          hz.size_target hplanar ht (hfits _ t ht.1), rfl⟩⟩
      exact Bool.eq_false_iff.2 fun hwraps => hbands ⟨hs, z, hz, htiles hs, hwraps⟩
  · rw [op.run_eq_emptyBands_iff arith name schedule b s, hname]
    constructor
    · rintro ⟨hs, hbias, z, hz, hbands⟩
      exact ⟨(op.exists_biasElements_iff_singleAt hz s).1 hbias, hs, z, hz, hbands⟩
    · rintro ⟨hsingle, hs, z, hz, hbands⟩
      exact ⟨hs, (op.exists_biasElements_iff_singleAt hz s).2 hsingle, z, hz, hbands⟩

/-- The operands of a pooling. -/
def Pooling.operands : List Operand := [.source 0, .destination 0]

theorem Pooling.run_isOk (op : Pooling) {b : Bindings} {s : Store}
    (hfits : ∀ p m, b.get? p = some m → s.Fits m) {g : PoolGeometry}
    (hg : op.Pools b.descriptors g) (hlast : ChannelsLast b.descriptors) :
    ∃ s', op.run arith b s = .ok s' := by
  obtain ⟨m, hm, -⟩ := Bindings.exists_bindsSingle hg.source
  obtain ⟨t, ht, -⟩ := Bindings.exists_bindsSingle hg.target
  refine ⟨_, (op.run_eq_ok_iff arith b s _).2 ⟨g, m, t, ⟨hg, hlast⟩, hm, ht, ?_, rfl⟩⟩
  rw [hg.size_target hlast ht (hfits _ t ht.1), size_computed]

theorem Pooling.singleAt_of_pools (op : Pooling) {ds : Descriptors} {g : PoolGeometry}
    (h : op.Pools ds g) : ds.SingleAt operands := by
  obtain ⟨d, hd, hdtype, -⟩ := h.source
  obtain ⟨t, ht, httype, -⟩ := h.target
  intro p hp d' hd'
  simp only [operands, List.mem_cons, List.not_mem_nil, or_false] at hp
  rcases hp with rfl | rfl
  · rw [hd, Option.some.injEq] at hd'
    rw [← hd', hdtype]
  · rw [ht, Option.some.injEq] at hd'
    rw [← hd', httype]

theorem Pooling.keepsWord (op : Pooling) :
    (Runner.onStore (σ := σ) op.accepts (op.run arith)).KeepsWord operands fun _ => False := by
  refine Runner.onStore_keepsWord op.accepts_ofDescriptors (op.writesDestination arith)
    (fun b s hfits haccepts => ?_) fun b s => (op.run_reports arith b s).emptyBands_iff _
  rw [and_iff_left not_false]
  obtain ⟨⟨g, hg⟩, hlast⟩ := (op.accepts_eq_ok_true_iff b).1 haccepts
  exact iff_of_true (op.run_isOk arith hfits hg hlast) (op.singleAt_of_pools hg)

/-! ## Standard executors -/

namespace StandardOperation

/-- The runner is one that the standard kernel of the operation with the given name builds. -/
def Runs : (i : StandardOperation) → i.Attributes → String → Runner Unit → Prop
  | elementwise, op, _, r => r = op.runner arith
  | matMul, op, name, r => ∃ schedule, (name = MatMul.tiledName ↔ schedule = .byTile) ∧
      r = op.runner arith name schedule
  | pooling, op, _, r => r = .onStore op.accepts (op.run arith)

/-- A run of the kernel with the given name ends the program on such operands if they have `f32`
    elements. -/
def EndsProgram : (i : StandardOperation) → i.Attributes → String → Descriptors → Prop
  | matMul, op, name, ds => name = MatMul.tiledName ∧ op.EmptyBands ds
  | elementwise, _, _, _ | pooling, _, _, _ => False

/-- The operands that the operation reads and writes. -/
def operands : (i : StandardOperation) → i.Attributes → List Operand
  | elementwise, op => op.operands
  | matMul, _ => MatMul.operands
  | pooling, _ => Pooling.operands

theorem Runs.keepsWord {i : StandardOperation} {attrs : i.Attributes} {name : String}
    {r : Runner Unit} (h : Runs arith i attrs name r) :
    r.KeepsWord (operands i attrs) (EndsProgram i attrs name) := by
  cases i with
  | elementwise =>
    obtain rfl := h
    exact Elementwise.keepsWord arith attrs
  | matMul =>
    obtain ⟨schedule, hname, rfl⟩ := h
    exact MatMul.keepsWord arith attrs hname
  | pooling =>
    obtain rfl := h
    exact Pooling.keepsWord arith attrs

theorem quiet_of_mem_entries (i : StandardOperation) (attrs : i.Attributes)
    (constraints : Constraints) {k : Kernel i.Attributes Unit}
    (hk : k ∈ (catalogue arith).entries i) :
    k.Quiet attrs constraints (Runs arith i attrs k.name) := by
  refine forall_mem_entries arith
    (P := fun i k => ∀ attrs, k.Quiet attrs constraints (Runs arith i attrs k.name))
    ?_ ?_ ?_ ?_ ?_ i k hk attrs
  · exact fun _ => ⟨fun _ _ => rfl, fun _ _ => rfl, fun _ _ => rfl, fun _ _ => ⟨_, rfl, rfl⟩⟩
  · exact fun _ => ⟨fun _ _ => rfl, fun _ _ => rfl, fun _ _ => rfl, fun _ _ => ⟨_, rfl, rfl⟩⟩
  · exact fun _ => ⟨fun _ _ => rfl, fun _ _ => rfl, fun _ _ => rfl,
      fun _ _ => ⟨_, rfl, .byTile, iff_of_true rfl rfl, rfl⟩⟩
  · exact fun _ => ⟨fun _ _ => rfl, fun _ _ => rfl, fun _ _ => rfl,
      fun _ _ => ⟨_, rfl, .byRow,
        iff_of_false (show MatMul.referenceName ≠ MatMul.tiledName by decide) nofun, rfl⟩⟩
  · exact fun _ => ⟨fun _ _ => rfl, fun _ _ => rfl, fun _ _ => rfl, fun _ _ => ⟨_, rfl, rfl⟩⟩

/-- The predicates of every kernel look at all element types. -/
theorem allSingle_of_supports (i : StandardOperation) (attrs : i.Attributes)
    (constraints : Constraints) {k : Kernel i.Attributes Unit}
    (hk : k ∈ (catalogue arith).entries i) {ds : Descriptors} {s : Session Unit}
    (h : (k.supports attrs ds constraints s).1 = true) : ds.allSingle = true := by
  have helementwise : ∀ op : Elementwise, op.supportsShared ds constraints = true →
      ds.allSingle = true := by
    intro op h
    obtain ⟨-, -, -, hsingle⟩ := (op.fits_iff ds).1 (op.fits_of_supportsShared constraints h)
    exact hsingle
  have hmatMul : ∀ op : MatMul, op.fits ds = true → ds.allSingle = true := by
    intro op h
    simp only [MatMul.fits, Bool.and_eq_true] at h
    exact h.2
  refine forall_mem_entries arith (P := fun _ k => ∀ attrs,
    (k.supports attrs ds constraints s).1 = true → ds.allSingle = true)
    ?_ ?_ ?_ ?_ ?_ i k hk attrs h
  · exact fun op h => helementwise op (op.supportsShared_of_supportsBlocked constraints h)
  · exact fun op h => helementwise op h
  · intro op h
    change op.supportsTiled ds constraints = true at h
    simp only [MatMul.supportsTiled, Bool.and_eq_true] at h
    exact hmatMul op h.1.1.1
  · intro op h
    change op.supportsAny ds constraints = true at h
    simp only [MatMul.supportsAny, Bool.and_eq_true] at h
    exact hmatMul op h.1
  · intro op h
    change op.supports ds constraints = true at h
    simp only [Pooling.supports, Bool.and_eq_true] at h
    exact h.1.2

end StandardOperation

/-! ## What runners see of the operands of callers -/

namespace Descriptors

/-- The operands have the same element types and shapes; their layouts may differ. -/
def SameKinds (ds ds' : Descriptors) : Prop :=
  ∀ p, (ds.get? p).map (fun d => (d.elementType, d.shape)) =
    (ds'.get? p).map fun d => (d.elementType, d.shape)

variable {ds ds' : Descriptors}

theorem SameKinds.symm (h : ds.SameKinds ds') : ds'.SameKinds ds := fun p => (h p).symm

theorem SameKinds.get? (h : ds.SameKinds ds') {p : Operand} {d : Descriptor}
    (hd : ds.get? p = some d) :
    ∃ d', ds'.get? p = some d' ∧ d'.elementType = d.elementType ∧ d'.shape = d.shape := by
  have hsame := h p
  rw [hd] at hsame
  obtain ⟨d', hd', hkinds⟩ := Option.map_eq_some_iff.1 hsame.symm
  exact ⟨d', hd', congrArg Prod.fst hkinds, congrArg Prod.snd hkinds⟩

theorem SameKinds.singleAt (h : ds.SameKinds ds') {ps : List Operand} (hsingle : ds.SingleAt ps) :
    ds'.SingleAt ps := by
  intro p hp d' hd'
  obtain ⟨d, hd, htype, -⟩ := h.symm.get? hd'
  rw [← htype]
  exact hsingle p hp d hd

theorem SameKinds.hasSizes (h : ds.SameKinds ds') {p : Operand} {sizes : List Nat}
    (hsizes : ds.HasSizes p sizes) : ds'.HasSizes p sizes := by
  obtain ⟨d, hd, htype, hshape⟩ := hsizes
  obtain ⟨d', hd', htype', hshape'⟩ := h.get? hd
  exact ⟨d', hd', htype'.trans htype, hshape'.trans hshape⟩

theorem SameKinds.emptyBands (h : ds.SameKinds ds') {op : MatMul} (hbands : op.EmptyBands ds) :
    op.EmptyBands ds' := by
  obtain ⟨z, hz, hbands⟩ := hbands
  refine ⟨z, ⟨h.hasSizes hz.left, h.hasSizes hz.weights, h.hasSizes hz.target, fun d' hd' => ?_⟩,
    hbands⟩
  obtain ⟨d, hd, -, hshape⟩ := h.symm.get? hd'
  rw [← hshape]
  exact hz.bias d hd

theorem SameKinds.endsProgram_iff (h : ds.SameKinds ds') (i : StandardOperation)
    (attrs : i.Attributes) (name : String) :
    StandardOperation.EndsProgram i attrs name ds ↔
      StandardOperation.EndsProgram i attrs name ds' := by
  cases i with
  | elementwise => exact Iff.rfl
  | matMul => exact and_congr_right fun _ => ⟨h.emptyBands, h.symm.emptyBands⟩
  | pooling => exact Iff.rfl

end Descriptors

/-- Whoever looks at the operands that a runner meets sees the element types and the shapes of the
    caller's. -/
theorem Instance.RunsAs.sameKinds {built : Instance σ} {memory operands : Bindings}
    {w w₁ : World σ} {r : Runner σ} (h : built.RunsAs memory w r operands w₁) :
    operands.descriptors.SameKinds memory.descriptors := by
  intro p
  have hstands := h.stands p
  rw [Bindings.get?_descriptors, Bindings.get?_descriptors]
  generalize memory.get? p = m at hstands ⊢
  generalize operands.get? p = m' at hstands ⊢
  cases hstands with
  | none => rfl
  | some hstands => exact congrArg some (Prod.ext hstands.elementType hstands.shape)

theorem Instance.RunsAs.singleAt_iff {built : Instance σ} {memory operands : Bindings}
    {w w₁ : World σ} {r : Runner σ} (h : built.RunsAs memory w r operands w₁)
    (ps : List Operand) : operands.descriptors.SingleAt ps ↔ memory.descriptors.SingleAt ps :=
  ⟨h.sameKinds.singleAt, h.sameKinds.symm.singleAt⟩

namespace StandardOperation

/-- The run behind a call of something that has been built of a standard kernel ends the program on
    the operands that the kernel ends it on. -/
theorem ends_iff_of_runsAs {i : StandardOperation} {attrs : i.Attributes}
    {built : Instance Unit} {memory operands : Bindings} {w w₁ : World Unit} {r : Runner Unit}
    (h : built.RunsAs memory w r operands w₁) (hr : Runs arith i attrs built.name r) :
    (∃ e, (built.execute memory w).1 = .error e ∧ e.isReported = false) ↔
      memory.descriptors.SingleAt (StandardOperation.operands i attrs) ∧
        EndsProgram i attrs built.name memory.descriptors := by
  rw [h.result, (hr.keepsWord arith).ends_iff, h.singleAt_iff,
    h.sameKinds.endsProgram_iff i attrs built.name]

/-- A call of something that consented. -/
theorem consented_call {i : StandardOperation} {attrs : i.Attributes} {memory : Bindings}
    {built : Instance Unit} (hconsented : Executor.Consented (Runs arith i attrs) memory built)
    {w : World Unit} (ho : w.Owns memory) :
    ∃ r operands w₁, built.RunsAs memory w r operands w₁ ∧ Runs arith i attrs built.name r ∧
      (∀ t, (r.update operands t).1 = .ok true) ∧
      ((built.execute memory w).1 = .ok () ↔
        memory.descriptors.SingleAt (StandardOperation.operands i attrs) ∧
          ¬ EndsProgram i attrs built.name memory.descriptors) := by
  have hhas := hconsented.has
  obtain ⟨built₀, w₀, w', hhas₀, hupdate⟩ := hconsented
  obtain ⟨r, operands, w₁, hruns⟩ := (Instance.reaches_of_update hupdate).runsAs ho
    fun r hr => ((hhas r hr).keepsWord arith).confined
  have hr := hhas r hruns.runner_eq
  have hanswer := Instance.consent_of_update (fun r hr => ((hhas₀ r hr).keepsWord arith).steady)
    hupdate hruns.runner_eq hruns.descriptors_eq
  refine ⟨r, operands, w₁, hruns, hr, hanswer, ?_⟩
  rw [hruns.result, (hr.keepsWord arith).succeeds_iff _ _ hruns.owns.fits (hanswer _),
    hruns.singleAt_iff, hruns.sameKinds.endsProgram_iff i attrs built.name]

/-- An executor that a factory of the standard kernels has made, after any history. The kernels are
    quiet, and those that several candidates dispatch to have looked at all element types. -/
theorem madeOf_after (i : StandardOperation) (attrs : i.Attributes) {context : Context}
    {constraints : Constraints} {pattern : Descriptors} {priority : Option String}
    {s s' : Session Unit} {f : Factory i.Attributes Unit}
    (hselect : Factory.select ((catalogue arith).entries i) attrs context pattern constraints
      priority s = (.ok f, s')) {memory₀ : Bindings} {w w₁ : World Unit}
    {e₀ : Executor i.Attributes Unit} (hmake : f.make memory₀ w = (.ok e₀, w₁))
    (calls : List (Call Unit)) :
    (∀ k ∈ f.candidates, k.Quiet attrs constraints (Runs arith i attrs k.name)) ∧
      Dispatcher.Vets f.candidates attrs constraints (fun _ ds => ds.allSingle = true) ∧
      (Executor.after (e₀, w₁) calls).1.MadeOf f.candidates attrs constraints (Runs arith i attrs)
        fun _ ds => ds.allSingle = true := by
  obtain ⟨rfl, rfl, hmem⟩ := Factory.of_select hselect
  have hks : ∀ k ∈ f.candidates,
      k.Quiet f.attrs f.constraints (Runs arith i f.attrs k.name) :=
    fun k hk => quiet_of_mem_entries arith i f.attrs f.constraints (hmem k hk)
  have hvets : Dispatcher.Vets f.candidates f.attrs f.constraints
      fun _ ds => ds.allSingle = true := fun j k hk operands t t' hsupports _ =>
    allSingle_of_supports arith i f.attrs f.constraints (hmem k (List.mem_of_getElem? hk)) hsupports
  exact ⟨hks, hvets, (Factory.make_madeOf hks _ hmake).after (s := (e₀, w₁))
    (fun _ r hr => (hr.keepsWord arith).quiet) hks hvets calls⟩

/-- Let an executor be made by a factory of the standard kernels, for any operands and of any
    selection, and let it go through any history. If an update to operands that exist says that they
    can be run, the call that follows succeeds exactly when the operands that the operation reads
    and writes have `f32` elements and the kernel in force does not end the program on them. It does
    where it is to work in empty bands. Executors with several candidates, and those for poolings,
    say so of `f32` operands only. -/
theorem execute_isOk_iff_of_update (i : StandardOperation) (attrs : i.Attributes)
    {context : Context} {constraints : Constraints} {pattern : Descriptors}
    {priority : Option String} {s s' : Session Unit} {f : Factory i.Attributes Unit}
    (hselect : Factory.select ((catalogue arith).entries i) attrs context pattern constraints
      priority s = (.ok f, s')) {memory₀ : Bindings} {w w₁ : World Unit}
    {e₀ : Executor i.Attributes Unit} (hmake : f.make memory₀ w = (.ok e₀, w₁))
    (calls : List (Call Unit)) {memory : Bindings}
    (ho : (Executor.after (e₀, w₁) calls).2.Owns memory) {e : Executor i.Attributes Unit}
    {w' : World Unit}
    (hupdate : (Executor.after (e₀, w₁) calls).1.update memory (Executor.after (e₀, w₁) calls).2 =
      (.ok true, e, w')) :
    ((e.execute memory w').1 = .ok () ↔ memory.descriptors.SingleAt (operands i attrs) ∧
        ¬ EndsProgram i attrs e.name memory.descriptors) ∧
      ((∃ err, (e.execute memory w').1 = .error err ∧ err.isReported = false) ↔
        memory.descriptors.SingleAt (operands i attrs) ∧
          EndsProgram i attrs e.name memory.descriptors) ∧
      (f.candidates.length ≠ 1 ∨ i = pooling →
        memory.descriptors.SingleAt (operands i attrs)) := by
  obtain ⟨hks, hvets, hmade⟩ := madeOf_after arith i attrs hselect hmake calls
  have hquiet : ∀ name r, Runs arith i attrs name r → r.Quiet :=
    fun _ r hr => (hr.keepsWord arith).quiet
  have hspares := hmade.update_spares hquiet hks hvets memory
  rw [hupdate] at hspares
  obtain ⟨⟨built, w₂, hcalls, hname, hconsented⟩, hmany⟩ := hmade.execute_of_update
    (fun name r hr => ⟨hquiet name r hr, (hr.keepsWord arith).steady⟩) hks hvets hupdate
  obtain ⟨r, staged, w₃, hruns, hr, hanswer, hok⟩ :=
    consented_call arith hconsented (hcalls.spares.owns (hspares.owns ho))
  have hresult : (e.execute memory w').1 = (built.execute memory w₂).1 := hcalls.result
  rw [hresult, hname]
  refine ⟨hok, ends_iff_of_runsAs arith hruns hr, fun hsure => ?_⟩
  rcases hsure with hlength | rfl
  · obtain ⟨j, hsingle⟩ := hmany hlength
    exact .of_allSingle hsingle _
  · refine (hruns.singleAt_iff _).1 ?_
    obtain rfl := hr
    obtain ⟨⟨g, hg⟩, -⟩ := (Pooling.accepts_eq_ok_true_iff attrs staged).1
      (Runner.accepts_of_onStore_update (hanswer ⟨{}, ()⟩))
    exact Pooling.singleAt_of_pools attrs hg

/-! ## Vectors of bytes -/

/-- A source and a destination in the given cells. -/
def pair (d d' : Descriptor) (c c' : Cell) : Bindings :=
  .ofList [(.source 0, ⟨d, c⟩), (.destination 0, ⟨d', c'⟩)]

theorem get?_pair {d d' : Descriptor} {c c' : Cell} {p : Operand} {m : Memory}
    (h : (pair d d' c c').get? p = some m) :
    (p = .source 0 ∧ m = ⟨d, c⟩) ∨ (p = .destination 0 ∧ m = ⟨d', c'⟩) := by
  have hmem : (p, m) ∈ [(Operand.source 0, (⟨d, c⟩ : Memory)), (.destination 0, ⟨d', c'⟩)] :=
    (OrderedMap.get?_eq_some_iff _).1 h
  simpa using hmem

theorem owns_pair {w : World Unit} (hpool : w.scratch.pool = []) {d d' : Descriptor} {c c' : Cell}
    (hc : c < w.store.cells.size ∧ w.store.Fits ⟨d, c⟩)
    (hc' : c' < w.store.cells.size ∧ w.store.Fits ⟨d', c'⟩) : w.Owns (pair d d' c c') := by
  refine .of_pool_eq_nil hpool fun p m hm => ?_
  rcases get?_pair hm with ⟨-, rfl⟩ | ⟨-, rfl⟩
  · exact hc
  · exact hc'

/-- A vector of two elements. -/
def vector (type : ElementType) : Descriptor := ⟨type, .ofSizes [2], .planar⟩

/-- The memories of two `f32` vectors and of two vectors of bytes. -/
def fourVectors : World Unit where
  store := ⟨#[Bytes.zeros 8, Bytes.zeros 8, Bytes.zeros 2, Bytes.zeros 2]⟩
  ambient := ()
  scratch := {}

/-- An executor for `f32` vectors runs after an update to such vectors. -/
theorem relu_runs_on_vectors :
    ∃ f s', Factory.select ((catalogue .single).entries elementwise) Elementwise.relu
        (.ofSettings default) (pair (vector .f32) (vector .f32) 0 1).descriptors ∅ none ⟨{}, ()⟩ =
          (.ok f, s') ∧
      ∃ e₀ w, f.make (pair (vector .f32) (vector .f32) 0 1) fourVectors = (.ok e₀, w) ∧
        w.Owns (pair (vector .f32) (vector .f32) 0 1) ∧
        ∃ e w', e₀.update (pair (vector .f32) (vector .f32) 0 1) w = (.ok true, e, w') ∧
          (e.execute (pair (vector .f32) (vector .f32) 0 1) w').1 = .ok () := by
  obtain ⟨f, s', hselect, e₀, hmake⟩ : ∃ f s',
      Factory.select ((catalogue .single).entries elementwise) Elementwise.relu
        (.ofSettings default) (pair (vector .f32) (vector .f32) 0 1).descriptors ∅ none ⟨{}, ()⟩ =
          (.ok f, s') ∧
      ∃ e₀, f.make (pair (vector .f32) (vector .f32) 0 1) fourVectors = (.ok e₀, fourVectors) ∧
        ∃ e w', e₀.update (pair (vector .f32) (vector .f32) 0 1) fourVectors = (.ok true, e, w') :=
    ⟨_, _, rfl, _, rfl, _, _, rfl⟩
  obtain ⟨hmake, e, w', hupdate⟩ := hmake
  have howns : fourVectors.Owns (pair (vector .f32) (vector .f32) 0 1) :=
    owns_pair rfl ⟨by decide, rfl⟩ ⟨by decide, rfl⟩
  refine ⟨f, s', hselect, e₀, fourVectors, hmake, howns, e, w', hupdate, ?_⟩
  refine (execute_isOk_iff_of_update .single elementwise Elementwise.relu hselect hmake []
    howns hupdate).1.2 ⟨fun p _ d hd => ?_, id⟩
  obtain ⟨m, hm, rfl⟩ := (Bindings.descriptors_get?_eq_some_iff _ p d).1 hd
  rcases get?_pair hm with ⟨-, rfl⟩ | ⟨-, rfl⟩
  · rfl
  · rfl

/-- The same executor says that it can be run on vectors of bytes, and fails on them. -/
theorem relu_fails_on_bytes_after_update :
    ∃ f s', Factory.select ((catalogue .single).entries elementwise) Elementwise.relu
        (.ofSettings default) (pair (vector .f32) (vector .f32) 0 1).descriptors ∅ none ⟨{}, ()⟩ =
          (.ok f, s') ∧
      ∃ e₀ w, f.make (pair (vector .f32) (vector .f32) 0 1) fourVectors = (.ok e₀, w) ∧
        w.Owns (pair (vector .u8) (vector .u8) 2 3) ∧
        ∃ e w', e₀.update (pair (vector .u8) (vector .u8) 2 3) w = (.ok true, e, w') ∧
          (e.execute (pair (vector .u8) (vector .u8) 2 3) w').1 =
            .error (.execution (Misfit.elementType (.destination 0) .u8).failure) :=
  ⟨_, _, rfl, _, _, rfl, owns_pair rfl ⟨by decide, rfl⟩ ⟨by decide, rfl⟩, _, _, rfl, rfl⟩

end StandardOperation

end KernelDispatch
