import KernelDispatch.Proofs.Dispatch.FirstCall
import KernelDispatch.Proofs.Operation.Outcomes

/-
  Operands that a standard kernel supports, from selection to the result. Selecting for them, making
  an executor for them and calling it succeed; the call leaves the result of the operation in the
  destination and the inputs as they were (`StandardOperation.completes_of_supports`).
-/

namespace KernelDispatch

/-- Operands in cells that are pairwise different share no memory. -/
theorem Bindings.distinct_of_nodup {b : Bindings} (h : (b.entries.map fun e => e.2.cell).Nodup) :
    b.Distinct := by
  intro p q m m' hm hm' heq
  have hsame := List.inj_on_of_nodup_map h ((OrderedMap.get?_eq_some_iff _).1 hm)
    ((OrderedMap.get?_eq_some_iff _).1 hm') heq
  exact congrArg Prod.fst hsame

namespace StandardOperation

variable (arith : Arithmetic)

/-! ## Kernels -/

/-- The kernels of an operation by descriptors. -/
def steadyKernels : (i : StandardOperation) → (attrs : i.Attributes) →
    (constraints : Constraints) → List (SteadyKernel Unit attrs constraints)
  | elementwise, op, constraints => Elementwise.steadyKernels arith op constraints
  | matMul, op, constraints => MatMul.steadyKernels arith op constraints
  | pooling, op, constraints => Pooling.steadyKernels arith op constraints

variable (i : StandardOperation) (attrs : i.Attributes) (constraints : Constraints)

theorem kernel_steadyKernels :
    (steadyKernels arith i attrs constraints).map SteadyKernel.kernel =
      (catalogue arith).entries i := by
  cases i <;> rfl

theorem foresees (pattern : Descriptors) :
    Foresees (steadyKernels arith i attrs constraints) pattern
      fun ds => ds.Match pattern ∧ ds.Allocatable := by
  cases i with
  | elementwise => exact Elementwise.foresees arith attrs constraints pattern
  | matMul => exact MatMul.foresees arith attrs constraints pattern
  | pooling => exact Pooling.foresees arith attrs constraints pattern

/-- A kernel takes existing operands with positive extents that it supports. -/
theorem response_of_supports {k : SteadyKernel Unit attrs constraints}
    (hk : k ∈ steadyKernels arith i attrs constraints) {ds : Descriptors} (hm : ds.Match ds)
    (hall : ds.Allocatable) (hregular : Regular i attrs ds) (hsupports : k.supports ds = true) :
    k.response ds = .ok true := by
  cases i with
  | elementwise =>
    exact Elementwise.response_of_supports arith attrs constraints hk hall hsupports hregular
  | matMul =>
    exact MatMul.response_of_supports arith attrs constraints hk hall
      (MatMul.allocatable_planar hm hall) hsupports
  | pooling =>
    have hpooling : Pooling.supports attrs ds constraints = true := by
      obtain rfl := List.mem_singleton.1 hk
      exact hsupports
    exact Pooling.response_of_supports arith attrs constraints hk hall
      (Pooling.allocatable_channelsLast attrs constraints hm hall hpooling) hsupports

variable {i attrs constraints}

theorem Runs.writesOutputs {name : String} {r : Runner Unit} (h : Runs arith i attrs name r) :
    r.WritesOutputs := by
  cases i with
  | elementwise =>
    obtain rfl := h
    exact Runner.onStore_writesOutputs (Elementwise.writesDestination arith attrs)
  | matMul =>
    obtain ⟨schedule, -, rfl⟩ := h
    exact Runner.onStore_writesOutputs (MatMul.writesDestination arith attrs name schedule)
  | pooling =>
    obtain rfl := h
    exact Runner.onStore_writesOutputs (Pooling.writesDestination arith attrs)

/-- No kernel ends the program on existing operands with positive extents. -/
theorem not_endsProgram_of_positive {memory : Bindings} {s : Store}
    (hfits : ∀ p m, memory.get? p = some m → s.Fits m)
    (hpositive : ∀ p m, memory.get? p = some m → m.desc.IsPositive) (name : String) :
    ¬ EndsProgram i attrs name memory.descriptors := by
  cases i with
  | elementwise => exact id
  | matMul =>
    rintro ⟨-, z, hz, -, hwraps⟩
    obtain ⟨t, ht, hshape⟩ := Bindings.exists_bindsSingle hz.target
    have hrows : 0 < z.rows := Nat.pos_of_ne_zero fun hzero => by
      refine hpositive _ t ht.1 ?_
      rw [hshape, hzero]
      exact List.mem_cons_self
    rw [hz.wraps_eq_false (hfits _) hrows] at hwraps
    cases hwraps
  | pooling => exact id

/-! ## Calls -/

/-- A call on `memory` succeeds. It is a run of a runner of the operation, on operands that stand
    for those in `memory`; the destination has the result of the inputs as they are in `s`, and the
    inputs stay as they are there. -/
structure Completes (i : StandardOperation) (attrs : i.Attributes) (memory : Bindings) (s : Store)
    (c : Executor i.Attributes Unit × World Unit) : Prop where
  succeeds : (c.1.execute memory c.2).1 = .ok ()
  ran : ∃ built w r operands w', Executor.CallsAs c memory built w ∧
    Runs arith i attrs built.name r ∧ built.RunsAs memory w r operands w' ∧
      (r.execute operands w'.toSession).1 = .ok ()
  computes : Computes arith i attrs memory s (c.1.execute memory c.2).2.2.store
  inputs : ∀ p m, p.isInput = true → memory.get? p = some m →
    (c.1.execute memory c.2).2.2.store.contents m = s.contents m

/-- A call of something that consented to `f32` operands with positive extents, of which no two
    share a memory. -/
theorem completes_of_consented {memory : Bindings} {w : World Unit} (ho : w.Owns memory)
    (hdistinct : memory.Distinct) (hsingle : memory.descriptors.allSingle = true)
    (hpositive : ∀ p m, memory.get? p = some m → m.desc.IsPositive)
    {c : Executor i.Attributes Unit × World Unit} (hspares : w.Spares c.2) {built : Instance Unit}
    {w₁ : World Unit} (hcalls : Executor.CallsAs c memory built w₁)
    (hconsented : Executor.Consented (Runs arith i attrs) memory built) :
    Completes arith i attrs memory w.store c := by
  have hhas := hconsented.has
  have haligned := aligned_of_consented arith hconsented
  have hspares₁ := hspares.trans hcalls.spares
  have ho₁ := hspares₁.owns ho
  obtain ⟨r, operands, w₂, hruns, hr, -, hok⟩ := consented_call arith hconsented ho₁
  have hsucceeds : (built.execute memory w₁).1 = .ok () :=
    hok.2 ⟨.of_allSingle hsingle _, not_endsProgram_of_positive ho.fits hpositive _⟩
  have hran : (r.execute operands w₂.toSession).1 = .ok () := hruns.result.symm.trans hsucceeds
  obtain ⟨built₀, w₀, w', -, hupdate⟩ := hconsented
  have hreach := Instance.reaches_of_update hupdate
  have hsole : memory.SoleDestination := fun m q n hm _ hne hn heq =>
    hne (hdistinct q _ n m hn hm heq)
  refine ⟨?_, ⟨built, w₁, r, operands, w₂, hcalls, hr, hruns, hran⟩, ?_, fun p m hp hm => ?_⟩
  · rw [hcalls.result]
    exact hsucceeds
  · rw [hcalls.left]
    rw [← hruns.descriptors_eq] at haligned
    exact ((hr.computes arith hruns.owns.has haligned (Prod.ext hran rfl)).carry arith
      (hruns.carries (Prod.ext hran rfl) hsole)).carry arith (hspares₁.carries ho _)
  · have hheld := ho.held p m hm
    rw [hcalls.left]
    refine (hreach.frame ho₁ (fun r hr => (hhas r hr).writesOutputs arith) (ho₁.held p m hm)
      fun q n hn hq heq => ?_).trans ((hspares₁ ho.sound).1.bytes _ hheld)
    obtain rfl := hdistinct q p n m hn hm heq
    rw [Operand.isInput, hq] at hp
    cases hp

/-- Let a standard kernel support existing operands with positive extents, of which no two share a
    memory, and let no name be prescribed. Selecting for these operands and making an executor for
    them succeed, and so does a call of the executor on them: it leaves the result of the operation
    in the destination, and the inputs as they were. -/
theorem completes_of_supports {context : Context}
    (hoverride : context.overrides.priorityFor (Operation.key i.Attributes) = none)
    {memory : Bindings} {w : World Unit} (ho : w.Owns memory) (hdistinct : memory.Distinct)
    (hpositive : ∀ p m, memory.get? p = some m → m.desc.IsPositive)
    (hregular : Regular i attrs memory.descriptors) {k : Kernel i.Attributes Unit}
    (hk : k ∈ (catalogue arith).entries i) {s : Session Unit}
    (hsupports : (k.supports attrs memory.descriptors constraints s).1 = true) :
    ∃ f, Factory.select ((catalogue arith).entries i) attrs context memory.descriptors constraints
        none w.toSession = (.ok f, w.toSession) ∧
      ∃ e w₁, f.make memory w = (.ok e, w₁) ∧
        Completes arith i attrs memory w.store (e, w₁) := by
  have hall : memory.descriptors.Allocatable := fun p d hd => by
    obtain ⟨m, hm, rfl⟩ := (Bindings.descriptors_get?_eq_some_iff _ _ _).1 hd
    exact ⟨_, ho.fits p m hm⟩
  have hmatch : memory.descriptors.Match memory.descriptors := .refl fun p d hd => by
    refine ⟨(hall p d hd).isStatic, ?_⟩
    obtain ⟨m, hm, rfl⟩ := (Bindings.descriptors_get?_eq_some_iff _ _ _).1 hd
    exact hpositive p m hm
  have hsingle := allSingle_of_supports arith i attrs constraints hk hsupports
  rw [← kernel_steadyKernels arith i attrs constraints] at hk ⊢
  obtain ⟨k', hk', rfl⟩ := List.mem_map.1 hk
  rw [k'.supports_eq] at hsupports
  have hquiet : ∀ k ∈ steadyKernels arith i attrs constraints,
      k.kernel.Quiet attrs constraints (Runs arith i attrs k.kernel.name) := fun k hk =>
    quiet_of_mem_entries arith i attrs constraints
      (kernel_steadyKernels arith i attrs constraints ▸ List.mem_map_of_mem hk)
  obtain ⟨f, hselect, e, w₁, hmake, hspares, built, w₂, hcalls, hconsented⟩ :=
    (foresees arith i attrs constraints memory.descriptors).first_call ⟨hmatch, hall⟩
      (fun _ r hr => (hr.keepsWord arith).quiet) hquiet
      (fun k hk => response_of_supports arith i attrs constraints hk hmatch hall hregular) hk'
      hsupports hoverride w
  exact ⟨f, hselect, e, w₁, hmake,
    completes_of_consented arith ho hdistinct hsingle hpositive hspares hcalls hconsented⟩

end StandardOperation

end KernelDispatch
