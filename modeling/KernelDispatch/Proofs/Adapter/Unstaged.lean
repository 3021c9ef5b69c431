import KernelDispatch.Proofs.Adapter.Formats

/-
  Operands for which no substitutes can be made. An adapter refuses an update to them and reports an
  impossible conversion when it is called, if the conversions are found impossible when they are
  checked. The check does not look at sizes, however: operands whose substitutes would be too large
  pass it, and then the answers depend on whether the kernel has been built. The kernel does not run
  in either case (`declines_unstaged_iff`).
-/

namespace KernelDispatch

/-- Memory for a descriptor that can be converted to fails to be made for its size only. -/
theorem Descriptor.requiredBytes_eq_tooLarge {d : Descriptor} {e : MemoryError}
    (hstatic : d.isStatic = true) (hformed : d.isWellFormed = true)
    (h : d.requiredBytes = .error e) : e = .tooLarge d := by
  unfold requiredBytes at h
  rw [hstatic, hformed] at h
  cases hsize : d.byteSize? with
  | none =>
    rw [hsize] at h
    cases h
    rfl
  | some n =>
    rw [hsize] at h
    cases h

/-- The first entry that cannot be allocated decides how staging fails, whatever the pool has. -/
theorem World.stageFrom_eq_first_error {σ : Type} {memory : Bindings}
    {es : List (Operand × Descriptor)} (hbound : ∀ x ∈ es, ∃ m, memory.get? x.1 = some m)
    (h : ∃ x ∈ es, ¬ x.2.Allocatable) : ∃ x ∈ es, ∃ e, x.2.requiredBytes = .error e ∧
      ∀ staged loans (w : World σ), ∃ loans' w',
        stageFrom memory es staged loans w = (.error e, loans', w') := by
  induction es with
  | nil => simp at h
  | cons x es ih =>
    obtain ⟨p, d⟩ := x
    obtain ⟨m, hm⟩ := hbound _ List.mem_cons_self
    have hreq := (memory.require_eq_ok_iff p m).2 hm
    cases hbytes : d.requiredBytes with
    | error e =>
      refine ⟨(p, d), List.mem_cons_self, e, hbytes, fun staged loans w => ⟨loans, w, ?_⟩⟩
      simp only [stageFrom, hreq, w.lend_eq_error hbytes]
    | ok n =>
      have hrest : ∃ x ∈ es, ¬ x.2.Allocatable := by
        obtain ⟨x, hx, hbad⟩ := h
        rcases List.mem_cons.1 hx with rfl | hx
        · exact absurd ⟨n, hbytes⟩ hbad
        · exact ⟨x, hx, hbad⟩
      obtain ⟨x, hx, e, he, hstage⟩ := ih (fun x hx => hbound x (List.mem_cons_of_mem _ hx)) hrest
      refine ⟨x, List.mem_cons_of_mem _ hx, e, he, fun staged loans w => ?_⟩
      obtain ⟨loan, w₁, hlend, -⟩ := w.lend_eq_ok ⟨n, hbytes⟩
      obtain ⟨loans', w', hw'⟩ := hstage (staged.insert p loan.memory) (loans ++ [loan]) w₁
      exact ⟨loans', w', by simp only [stageFrom, hreq, hlend, hw']⟩

namespace Adapter

variable {α σ : Type}

/-! ## The check -/

/-- Only operands of the planned descriptors are converted. -/
theorem Plans.planned_of_conversions {a : Adapter σ} {target descs : Descriptors}
    (h : a.Plans target descs) {p : Operand} {d : Descriptor} (hd : a.conversions.get? p = some d) :
    ∃ d', a.planned.get? p = some d' := by
  rcases h.conversions with ⟨hp, hc⟩ | hc
  · rw [hc, Descriptors.get?_differingFrom_eq_some_iff] at hd
    obtain ⟨-, d', hd', -⟩ := hd
    exact ⟨d', hp ▸ hd'⟩
  · rw [hc, Descriptors.get?_carriedTo_eq_some_iff] at hd
    obtain ⟨d', -, hd', -⟩ := hd
    exact ⟨d', hd'⟩

/-- After an update to some operands those that are converted are bound. -/
theorem Plans.bound_of_follow {a : Adapter σ} {target descs : Descriptors}
    (h : a.Plans target descs) (memory : Bindings) {p : Operand} {d : Descriptor}
    (hd : (a.follow memory.descriptors).conversions.get? p = some d) :
    ∃ m, memory.get? p = some m := by
  obtain ⟨d', hd'⟩ := (h.follow memory.descriptors).planned_of_conversions hd
  rw [follow_planned, Bindings.get?_descriptors, Option.map_eq_some_iff] at hd'
  obtain ⟨m, hm, -⟩ := hd'
  exact ⟨m, hm⟩

/-- On bound operands the check finds impossible conversions, and nothing else. -/
theorem checkFrom_eq_conversion {memory : Bindings} {es : List (Operand × Descriptor)} {e : Error}
    (hbound : ∀ x ∈ es, ∃ m, memory.get? x.1 = some m) (h : checkFrom memory es = .error e) :
    ∃ p cause, e = .conversion p cause := by
  induction es with
  | nil => cases h
  | cons x es ih =>
    obtain ⟨p, d⟩ := x
    obtain ⟨m, hm⟩ := hbound _ List.mem_cons_self
    simp only [checkFrom, (memory.require_eq_ok_iff p m).2 hm] at h
    cases hcheck : m.desc.checkConversion d with
    | error cause =>
      rw [hcheck] at h
      cases h
      exact ⟨p, cause, rfl⟩
    | ok =>
      rw [hcheck] at h
      exact ih (fun x hx => hbound x (List.mem_cons_of_mem _ hx)) h

/-! ## Refusals -/

/-- An update refuses the operands, and a call after it fails with the error. Nothing else happens
    to the world. -/
structure Rejects (a : Adapter σ) (memory : Bindings) (err : Error) : Prop where
  update : ∀ w, ∃ a', a.update memory w = (.ok false, a', w)
  execute : ∀ v w, (a.update memory v).2.1.execute memory w = (.error err, w)

theorem rejects_of_check_error {a : Adapter σ} {memory : Bindings} {err : Error}
    (h : (a.follow memory.descriptors).check memory = .error err) : a.Rejects memory err := by
  refine ⟨fun w => ⟨_, update_of_refused (fun hready => ?_) w⟩, fun v w => ?_⟩
  · rw [(check_eq_ok_iff _ _).2 hready.1] at h
    cases h
  · rw [update_adapter]
    exact execute_of_check_error h w

theorem rejects_of_unbuilt {a : Adapter σ} {memory : Bindings} (hnone : a.inner = none)
    (h : (a.follow memory.descriptors).check memory = .ok ()) :
    a.Rejects memory (.memory (.unstaged a.name)) := by
  refine ⟨fun w => ⟨_, update_of_unbuilt hnone memory w⟩, fun v w => ?_⟩
  rw [update_adapter, ← a.follow_name memory.descriptors]
  exact execute_of_unbuilt h ((a.follow_inner _).trans hnone) w

/-- The operands are rejected because of an impossible conversion. -/
def Declines (a : Adapter σ) (memory : Bindings) : Prop :=
  ∃ p cause, a.Rejects memory (.conversion p cause)

theorem Plans.declines_of_check_error {a : Adapter σ} {target descs : Descriptors}
    (h : a.Plans target descs) {memory : Bindings} {err : Error}
    (hcheck : (a.follow memory.descriptors).check memory = .error err) : a.Declines memory := by
  obtain ⟨p, cause, rfl⟩ := checkFrom_eq_conversion
    (fun x hx => h.bound_of_follow memory ((OrderedMap.get?_eq_some_iff _).2 hx)) hcheck
  exact ⟨p, cause, rejects_of_check_error hcheck⟩

theorem Plans.declines {a : Adapter σ} {target descs : Descriptors} (h : a.Plans target descs)
    {memory : Bindings}
    (hconv : memory.descriptors.convertsTo (a.follow memory.descriptors).conversions = false) :
    a.Declines memory := by
  cases hcheck : (a.follow memory.descriptors).check memory with
  | ok =>
    rw [check_eq_ok_iff, hconv] at hcheck
    cases hcheck
  | error err => exact h.declines_of_check_error hcheck

/-- How an adapter answers for operands that can be converted to substitutes which would be too
    large: for one of these if its kernel has been built, and else as if it had been called too
    early. -/
structure Overflows (a : Adapter σ) (memory : Bindings) (d : Descriptor) : Prop where
  update : ∀ w, (a.update memory w).1 =
    if a.inner.isSome then .error (.memory (.tooLarge d)) else .ok false
  execute : ∀ v w, ((a.update memory v).2.1.execute memory w).1 =
    .error (.memory (if a.inner.isSome then .tooLarge d else .unstaged a.name))

theorem Overflows.not_declines {a : Adapter σ} {memory : Bindings} {d : Descriptor}
    (h : a.Overflows memory d) (w : World σ) : ¬ a.Declines memory := by
  rintro ⟨p, cause, hrejects⟩
  have herr := h.execute w w
  rw [hrejects.execute] at herr
  cases herr

theorem Plans.overflows {a : Adapter σ} {target descs : Descriptors} (h : a.Plans target descs)
    {memory : Bindings}
    (hconv : memory.descriptors.convertsTo (a.follow memory.descriptors).conversions = true)
    (hall : ¬ (a.follow memory.descriptors).conversions.Allocatable) :
    ∃ p d, (a.follow memory.descriptors).conversions.get? p = some d ∧
      d.requiredBytes = .error (.tooLarge d) ∧ a.Overflows memory d := by
  have hcheck := (check_eq_ok_iff _ _).2 hconv
  simp only [Descriptors.Allocatable, Classical.not_forall] at hall
  obtain ⟨q, t, ht, hbad⟩ := hall
  obtain ⟨⟨p, d⟩, hmem, e, he, hstage⟩ := World.stageFrom_eq_first_error (σ := σ)
    (fun x hx => h.bound_of_follow memory ((OrderedMap.get?_eq_some_iff _).2 hx))
    ⟨(q, t), (OrderedMap.get?_eq_some_iff _).1 ht, hbad⟩
  have hd := (OrderedMap.get?_eq_some_iff _).2 hmem
  obtain ⟨m, -, hok⟩ := bound_of_convertsTo hconv hd
  obtain ⟨-, -, -, -, hstatic, hformed⟩ := (Descriptor.checkConversion_eq_ok_iff _ _).1 hok
  obtain rfl := Descriptor.requiredBytes_eq_tooLarge hstatic hformed he
  refine ⟨p, d, hd, he, fun w => ?_, fun v w => ?_⟩
  · obtain ⟨loans, w', hw⟩ := hstage memory [] w
    unfold update
    simp only [hcheck, follow_inner]
    cases a.inner with
    | none => rfl
    | some r => simp only [World.withStaged, hw, Option.isSome_some, if_true]
  · obtain ⟨loans, w', hw⟩ := hstage memory [] w
    rw [update_adapter]
    unfold execute
    simp only [hcheck, follow_inner, follow_name]
    cases a.inner with
    | none => rfl
    | some r => simp only [World.withStaged, hw, Option.isSome_some, if_true]

/-- For every adapter, after every history: operands for which some substitute cannot be made are
    declined exactly if they cannot be converted, as when a layout does not take the rank. If they
    can, some substitute is too large; then the update fails when the kernel has been built, and the
    call after it reports no conversion in any case. The kernel does not run. -/
theorem declines_unstaged_iff {k : Kernel α σ} {attrs : α} {descs target : Descriptors}
    {memory₀ memory : Bindings} {w₀ w₁ : World σ} {a₀ : Adapter σ}
    (hbuild : Adapter.build k attrs descs target memory₀ w₀ = (.ok a₀, w₁))
    (calls : List (Call σ))
    (hunstaged : ¬ ((Adapter.after (a₀, w₁) calls).1.follow
      memory.descriptors).conversions.Allocatable) :
    let a := (Adapter.after (a₀, w₁) calls).1
    let wanted := (a.follow memory.descriptors).conversions
    (a.Declines memory ↔ memory.descriptors.convertsTo wanted = false) ∧
      (memory.descriptors.convertsTo wanted = true → ∃ p d, wanted.get? p = some d ∧
        d.requiredBytes = .error (.tooLarge d) ∧ a.Overflows memory d) ∧
      ∀ v w h, (a.update memory v).2.1.handOver memory w ≠ .ok h := by
  intro a wanted
  have ha : a.Plans target descs := Plans.after (s := (a₀, w₁)) (build_plans hbuild) calls
  refine ⟨⟨fun hdeclines => ?_, ha.declines⟩, fun hconv => ha.overflows hconv hunstaged,
    fun v w h hh => ?_⟩
  · rw [← Bool.not_eq_true]
    intro hconv
    obtain ⟨p, d, -, -, hoverflows⟩ := ha.overflows hconv hunstaged
    exact hoverflows.not_declines w₁ hdeclines
  · rw [update_adapter] at hh
    exact hunstaged (reaches_of_handOver hh).allocatable

/-! ## Blocks that are too large -/

/-- A column of `n` elements. -/
def column (n : Nat) (l : Layout) : Descriptor := ⟨.f32, .ofSizes [n, 1], l⟩

/-- Planar columns as source and destination, in the given cells. -/
def columnPair (n : Nat) (c c' : Cell) : Bindings :=
  .ofList [(.source 0, ⟨column n .planar, c⟩), (.destination 0, ⟨column n .planar, c'⟩)]

/-- Both columns in blocks of `2 ^ 62`. -/
def hugePair (n : Nat) : Descriptors :=
  .ofList [(.source 0, column n (.blocked 4611686018427387904)),
    (.destination 0, column n (.blocked 4611686018427387904))]

/-- Two empty columns and two with one element. -/
def fourColumns : World Journal where
  store := ⟨#[Bytes.zeros 0, Bytes.zeros 0, Bytes.zeros 4, Bytes.zeros 4]⟩
  ambient := []
  scratch := {}

theorem not_allocatable_hugePair : ¬ (hugePair 1).Allocatable := by
  rw [← Descriptors.stageable_iff]
  decide +kernel

/-- The kernel asked for huge blocks. An adapter that was built for empty columns fails to be
    updated to columns with an element; one that was built for those has no kernel, refuses the
    update, and then reports that it has been called too early. -/
theorem update_fails_on_huge_blocks :
    (∃ a w, Adapter.build packer ⟨.zero⟩ (columnPair 0 0 1).descriptors (hugePair 0)
        (columnPair 0 0 1) fourColumns = (.ok a, w) ∧
      (a.follow (columnPair 1 2 3).descriptors).conversions = hugePair 1 ∧
      ¬ (hugePair 1).Allocatable ∧
      (a.update (columnPair 1 2 3) w).1 =
        .error (.memory (.tooLarge (column 1 (.blocked 4611686018427387904))))) ∧
    ∃ a w, Adapter.build packer ⟨.zero⟩ (columnPair 1 2 3).descriptors (hugePair 1)
        (columnPair 1 2 3) fourColumns = (.ok a, w) ∧
      (a.follow (columnPair 1 2 3).descriptors).conversions = hugePair 1 ∧
      (a.update (columnPair 1 2 3) w).1 = .ok false ∧
      ((a.update (columnPair 1 2 3) w).2.1.execute (columnPair 1 2 3) w).1 =
        .error (.memory (.unstaged "packer")) :=
  ⟨⟨_, _, rfl, rfl, not_allocatable_hugePair, rfl⟩, _, _, rfl, rfl, rfl, rfl⟩

/-- The first of these adapters, after a call on empty columns. -/
theorem packer_declines_unstaged_iff :
    ∃ a₀ w₁, Adapter.build packer ⟨.zero⟩ (columnPair 0 0 1).descriptors (hugePair 0)
        (columnPair 0 0 1) fourColumns = (.ok a₀, w₁) ∧
      let a := (Adapter.after (a₀, w₁) [.execute (columnPair 0 0 1)]).1
      let memory := columnPair 1 2 3
      let wanted := (a.follow memory.descriptors).conversions
      ¬ wanted.Allocatable ∧
      (a.Declines memory ↔ memory.descriptors.convertsTo wanted = false) ∧
        (memory.descriptors.convertsTo wanted = true → ∃ p d, wanted.get? p = some d ∧
          d.requiredBytes = .error (.tooLarge d) ∧ a.Overflows memory d) ∧
        ∀ v w h, (a.update memory v).2.1.handOver memory w ≠ .ok h := by
  obtain ⟨a₀, w₁, hbuild, hconversions⟩ : ∃ a₀ w₁,
      Adapter.build packer ⟨.zero⟩ (columnPair 0 0 1).descriptors (hugePair 0) (columnPair 0 0 1)
        fourColumns = (.ok a₀, w₁) ∧
      ((Adapter.after (a₀, w₁) [.execute (columnPair 0 0 1)]).1.follow
        (columnPair 1 2 3).descriptors).conversions = hugePair 1 := ⟨_, _, rfl, rfl⟩
  have hunstaged := hconversions.symm ▸ not_allocatable_hugePair
  exact ⟨a₀, w₁, hbuild, hunstaged,
    declines_unstaged_iff hbuild [.execute (columnPair 0 0 1)] hunstaged⟩

end Adapter

end KernelDispatch
