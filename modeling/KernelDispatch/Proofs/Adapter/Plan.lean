import KernelDispatch.Adapter
import KernelDispatch.Proofs.Staging

/-
  What an adapter converts. `Descriptors.carriedTo` carries the element types and layouts that a
  kernel asked for over to other descriptors; on the descriptors that an adapter was built for it
  yields the differing operands as long as the target keeps their shapes
  (`differingFrom_eq_carriedTo`). An adapter follows the descriptors of each update
  (`update_adapter`), and what it checks, refuses and hands to its kernel is read off its plan.
-/

namespace KernelDispatch

namespace Descriptor

/-- The element type and the layout are those of `t`. -/
def Meets (d t : Descriptor) : Prop := d.elementType = t.elementType ∧ d.layout = t.layout

theorem checkConversion_eq_ok_iff (d t : Descriptor) :
    d.checkConversion t = .ok () ↔
      d.elementType = t.elementType ∧ d.shape = t.shape ∧ d.isStatic = true ∧
        d.isWellFormed = true ∧ t.isStatic = true ∧ t.isWellFormed = true := by
  unfold checkConversion
  by_cases htype : d.elementType = t.elementType <;> by_cases hshape : d.shape = t.shape <;>
    cases d.isStatic <;> cases d.isWellFormed <;> cases t.isStatic <;> cases t.isWellFormed <;>
    simp [htype, hshape]

theorem checkConversion_symm {d t : Descriptor} (h : d.checkConversion t = .ok ()) :
    t.checkConversion d = .ok () := by
  obtain ⟨htype, hshape, hs, hw, hs', hw'⟩ := (checkConversion_eq_ok_iff d t).1 h
  exact (checkConversion_eq_ok_iff t d).2 ⟨htype.symm, hshape.symm, hs', hw', hs, hw⟩

end Descriptor

namespace Descriptors

/-- The element types and layouts of all operands. -/
def formats (ds : Descriptors) : OperandMap (ElementType × Layout) :=
  ds.map fun _ d => (d.elementType, d.layout)

/-- The descriptors that change when the given element types and layouts are carried over to
    `ds`. -/
def carriedTo (ds : Descriptors) (formats : OperandMap (ElementType × Layout)) : Descriptors :=
  ds.filterMap fun p d => (formats.get? p).bind fun (elementType, layout) =>
    let wanted := { d with elementType, layout }
    if wanted = d then none else some wanted

/-- The operands of `ds` that are in `target` have the same shapes there. -/
def KeepsShapes (target ds : Descriptors) : Prop :=
  ∀ p t d, target.get? p = some t → ds.get? p = some d → t.shape = d.shape

/-- Whether the operands of `ds` can be converted to the given descriptors. -/
def convertsTo (ds wanted : Descriptors) : Bool :=
  wanted.all fun p d => (ds.get? p).any fun a => (a.checkConversion d).isOk

theorem convertsTo_iff (ds wanted : Descriptors) :
    ds.convertsTo wanted = true ↔ ∀ p t, wanted.get? p = some t →
      ∃ d, ds.get? p = some d ∧ d.checkConversion t = .ok () := by
  simp only [convertsTo, OrderedMap.all_eq_true_iff]
  refine forall_congr' fun p => forall_congr' fun t => forall_congr' fun _ => ?_
  cases ds.get? p with
  | none => simp
  | some d =>
    cases hd : d.checkConversion t with
    | ok => simp [hd, Except.isOk, Except.toBool]
    | error e => simp [hd, Except.isOk, Except.toBool]

theorem get?_differingFrom_eq_some_iff (target ds : Descriptors) (p : Operand) (t : Descriptor) :
    (target.differingFrom ds).get? p = some t ↔
      target.get? p = some t ∧ ∃ d, ds.get? p = some d ∧ d ≠ t := by
  rw [differingFrom, OrderedMap.get?_filterMap]
  cases target.get? p with
  | none => simp
  | some t' =>
    cases ds.get? p with
    | none => simp
    | some d =>
      by_cases h : d = t'
      · simp [h]
      · simp only [Option.bind_some, h, if_false, Option.some.injEq]
        constructor
        · rintro rfl; exact ⟨rfl, d, rfl, h⟩
        · exact fun h => h.1

theorem get?_carriedTo_eq_some_iff (ds target : Descriptors) (p : Operand) (t : Descriptor) :
    (ds.carriedTo target.formats).get? p = some t ↔
      ∃ d t', ds.get? p = some d ∧ target.get? p = some t' ∧ ¬ d.Meets t' ∧
        t = { d with elementType := t'.elementType, layout := t'.layout } := by
  rw [carriedTo, OrderedMap.get?_filterMap, formats, OrderedMap.get?_map]
  cases ds.get? p with
  | none => simp
  | some d =>
    cases target.get? p with
    | none => simp
    | some t' =>
      have hmeets : ({ d with elementType := t'.elementType, layout := t'.layout } : Descriptor) = d
          ↔ d.Meets t' := by
        constructor
        · intro h; exact ⟨(congrArg (·.elementType) h).symm, (congrArg (·.layout) h).symm⟩
        · rintro ⟨htype, hlayout⟩; rw [← htype, ← hlayout]
      by_cases h : d.Meets t'
      · simp [hmeets, h]
      · have hne := mt hmeets.1 h
        simp only [Option.map_some, Option.bind_some, if_neg hne, Option.some.injEq]
        constructor
        · rintro rfl
          exact ⟨d, t', rfl, rfl, h, rfl⟩
        · rintro ⟨_, _, rfl, rfl, -, rfl⟩
          rfl

/-- On the descriptors that a target was asked for, carrying its element types and layouts over
    gives the operands that differ, if it keeps their shapes. -/
theorem differingFrom_eq_carriedTo {target ds : Descriptors} (h : target.KeepsShapes ds) :
    target.differingFrom ds = ds.carriedTo target.formats := by
  refine OrderedMap.ext_get? fun p => Option.ext fun t => ?_
  rw [get?_differingFrom_eq_some_iff, get?_carriedTo_eq_some_iff]
  constructor
  · rintro ⟨ht, d, hd, hne⟩
    have hshape := h p t d ht hd
    refine ⟨d, t, hd, ht, fun hm => hne ?_, ?_⟩
    · cases d; cases t; simp_all [Descriptor.Meets]
    · cases d; cases t; simp_all
  · rintro ⟨d, t', hd, ht', hm, rfl⟩
    have hshape := h p t' d ht' hd
    refine ⟨?_, d, hd, fun he => hm ?_⟩
    · rw [ht']; cases d; cases t'; simp_all
    · exact ⟨congrArg (·.elementType) he, congrArg (·.layout) he⟩

/-- A target that changes a shape cannot be converted to. -/
theorem convertsTo_differingFrom_eq_false {target ds : Descriptors}
    (h : ¬ target.KeepsShapes ds) : ds.convertsTo (target.differingFrom ds) = false := by
  simp only [KeepsShapes, Classical.not_forall] at h
  obtain ⟨p, t, d, ht, hd, hshape⟩ := h
  rw [Bool.eq_false_iff, ne_eq, convertsTo_iff]
  intro hall
  have hne : d ≠ t := fun he => hshape (by rw [he])
  obtain ⟨d', hd', hcheck⟩ :=
    hall p t ((get?_differingFrom_eq_some_iff target ds p t).2 ⟨ht, d, hd, hne⟩)
  rw [hd] at hd'
  cases hd'
  exact hshape ((Descriptor.checkConversion_eq_ok_iff d t).1 hcheck).2.1.symm

end Descriptors

namespace Adapter

variable {α σ : Type}

/-! ## Following descriptors -/

theorem plan_eq (a : Adapter σ) (ds : Descriptors) : a.plan ds = ds.carriedTo a.targets := rfl

@[simp] theorem follow_targets (a : Adapter σ) (ds : Descriptors) :
    (a.follow ds).targets = a.targets := by
  unfold follow; split <;> rfl

@[simp] theorem follow_name (a : Adapter σ) (ds : Descriptors) : (a.follow ds).name = a.name := by
  unfold follow; split <;> rfl

@[simp] theorem follow_inner (a : Adapter σ) (ds : Descriptors) :
    (a.follow ds).inner = a.inner := by
  unfold follow; split <;> rfl

@[simp] theorem follow_planned (a : Adapter σ) (ds : Descriptors) :
    (a.follow ds).planned = ds := by
  unfold follow
  split
  · rename_i h; exact h.symm
  · rfl

/-- The conversions are those of the target, or those that its element types and layouts ask for
    on the planned descriptors. -/
structure Plans (a : Adapter σ) (target descs : Descriptors) : Prop where
  targets : a.targets = target.formats
  conversions : (a.planned = descs ∧ a.conversions = target.differingFrom descs) ∨
    a.conversions = a.planned.carriedTo target.formats

theorem Plans.follow {a : Adapter σ} {target descs : Descriptors} (h : a.Plans target descs)
    (ds : Descriptors) : (a.follow ds).Plans target descs := by
  refine ⟨by rw [follow_targets, h.targets], ?_⟩
  by_cases hds : ds = a.planned
  · rw [show a.follow ds = a from if_pos hds]
    exact h.conversions
  · rw [show a.follow ds = _ from if_neg hds]
    exact .inr (by rw [plan_eq, h.targets])

/-- Every conversion is to the element type and layout that the target names. -/
theorem Plans.meets {a : Adapter σ} {target descs : Descriptors} (h : a.Plans target descs)
    {p : Operand} {d : Descriptor} (hd : a.conversions.get? p = some d) :
    ∃ t, target.get? p = some t ∧ d.Meets t := by
  rcases h.conversions with ⟨-, hc⟩ | hc
  · rw [hc, Descriptors.get?_differingFrom_eq_some_iff] at hd
    exact ⟨d, hd.1, rfl, rfl⟩
  · rw [hc, Descriptors.get?_carriedTo_eq_some_iff] at hd
    obtain ⟨d', t, -, ht, -, rfl⟩ := hd
    exact ⟨t, ht, rfl, rfl⟩

/-- On the planned descriptors every operand that does not meet the target is converted. -/
theorem Plans.converts {a : Adapter σ} {target descs : Descriptors} (h : a.Plans target descs)
    {p : Operand} {d t : Descriptor} (hd : a.planned.get? p = some d)
    (ht : target.get? p = some t) (hm : ¬ d.Meets t) : ∃ d', a.conversions.get? p = some d' := by
  rcases h.conversions with ⟨hp, hc⟩ | hc
  · refine ⟨t, ?_⟩
    rw [hc, Descriptors.get?_differingFrom_eq_some_iff]
    exact ⟨ht, d, hp ▸ hd, fun he => hm (he ▸ ⟨rfl, rfl⟩)⟩
  · refine ⟨{ d with elementType := t.elementType, layout := t.layout }, ?_⟩
    rw [hc, Descriptors.get?_carriedTo_eq_some_iff]
    exact ⟨d, t, hd, ht, hm, rfl⟩

/-! ## Building, checking and updating -/

/-- The adapter that is built for `ds` around a kernel, or around none. -/
def around (k : Kernel α σ) (ds target : Descriptors) (inner : Option (Runner σ)) : Adapter σ :=
  { name := k.name, inner, targets := target.formats, planned := ds
    conversions := target.differingFrom ds }

theorem exists_around_of_build {k : Kernel α σ} {attrs : α} {descs target : Descriptors}
    {memory : Bindings} {w w' : World σ} {a : Adapter σ}
    (h : Adapter.build k attrs descs target memory w = (.ok a, w')) :
    ∃ inner, a = around k descs target inner := by
  unfold Adapter.build World.withStaged at h
  dsimp only at h
  split at h
  · split at h
    · cases h
    · split at h
      · cases h
        exact ⟨_, rfl⟩
      · cases h
  · cases h
    exact ⟨none, rfl⟩

theorem build_plans {k : Kernel α σ} {attrs : α} {descs target : Descriptors} {memory : Bindings}
    {w w' : World σ} {a : Adapter σ}
    (h : Adapter.build k attrs descs target memory w = (.ok a, w')) : a.Plans target descs := by
  obtain ⟨inner, rfl⟩ := exists_around_of_build h
  exact ⟨rfl, .inl ⟨rfl, rfl⟩⟩

theorem checkFrom_eq_ok_iff (memory : Bindings) (es : List (Operand × Descriptor)) :
    checkFrom memory es = .ok () ↔
      ∀ e ∈ es, ∃ m, memory.get? e.1 = some m ∧ m.desc.checkConversion e.2 = .ok () := by
  induction es with
  | nil => simp [checkFrom]
  | cons e es ih =>
    obtain ⟨p, d⟩ := e
    simp only [checkFrom, List.forall_mem_cons, ← ih]
    cases hreq : memory.require p with
    | error e =>
      have hnone : ∀ m, memory.get? p ≠ some m := fun m hm => by
        rw [(memory.require_eq_ok_iff p m).2 hm] at hreq
        cases hreq
      simp [hnone]
    | ok m =>
      rw [(memory.require_eq_ok_iff p m).1 hreq]
      cases hcheck : m.desc.checkConversion d with
      | error e => simp [hcheck]
      | ok => simp [hcheck]

theorem checkFrom_entries_eq_ok_iff (memory : Bindings) (wanted : Descriptors) :
    checkFrom memory wanted.entries = .ok () ↔ memory.descriptors.convertsTo wanted = true := by
  rw [checkFrom_eq_ok_iff, Descriptors.convertsTo_iff]
  constructor
  · intro h p t ht
    obtain ⟨m, hm, hcheck⟩ := h (p, t) ((OrderedMap.get?_eq_some_iff _).1 ht)
    exact ⟨m.desc, by rw [Bindings.get?_descriptors, hm]; rfl, hcheck⟩
  · rintro h ⟨p, t⟩ ht
    obtain ⟨d, hd, hcheck⟩ := h p t ((OrderedMap.get?_eq_some_iff _).2 ht)
    rw [Bindings.get?_descriptors, Option.map_eq_some_iff] at hd
    obtain ⟨m, hm, rfl⟩ := hd
    exact ⟨m, hm, hcheck⟩

theorem check_eq_ok_iff (a : Adapter σ) (memory : Bindings) :
    a.check memory = .ok () ↔ memory.descriptors.convertsTo a.conversions = true :=
  checkFrom_entries_eq_ok_iff memory a.conversions

/-- Operands whose descriptors differ from the target are bound. -/
theorem bound_of_differingFrom {target : Descriptors} {memory : Bindings} {p : Operand}
    {t : Descriptor} (h : (target.differingFrom memory.descriptors).get? p = some t) :
    ∃ m, memory.get? p = some m := by
  obtain ⟨-, d, hd, -⟩ := (Descriptors.get?_differingFrom_eq_some_iff _ _ _ _).1 h
  rw [Bindings.get?_descriptors, Option.map_eq_some_iff] at hd
  exact hd.imp fun _ hm => hm.1

/-- Operands that can be converted are bound. -/
theorem bound_of_convertsTo {memory : Bindings} {wanted : Descriptors}
    (h : memory.descriptors.convertsTo wanted = true) {p : Operand} {d : Descriptor}
    (hd : wanted.get? p = some d) :
    ∃ m, memory.get? p = some m ∧ m.desc.checkConversion d = .ok () := by
  obtain ⟨d', hd', hcheck⟩ := (Descriptors.convertsTo_iff _ _).1 h p d hd
  rw [Bindings.get?_descriptors, Option.map_eq_some_iff] at hd'
  obtain ⟨m, hm, rfl⟩ := hd'
  exact ⟨m, hm, hcheck⟩

/-- An update makes the adapter follow the bound operands, whatever the answer is. -/
theorem update_adapter (a : Adapter σ) (memory : Bindings) (w : World σ) :
    (a.update memory w).2.1 = a.follow memory.descriptors := by
  unfold update
  dsimp only
  split <;> rfl

end Adapter

end KernelDispatch
