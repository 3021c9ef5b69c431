import KernelDispatch.Factory
import KernelDispatch.Proofs.Adapter.Handover
import KernelDispatch.Proofs.Dispatch.Built
import KernelDispatch.Proofs.Dispatch.Inquiries
import KernelDispatch.Proofs.Dispatch.Scripts

/-
  How an executor comes about that is built behind an adapter. Whatever its kernel asks for, the
  only thing that can go wrong is the building of the kernel itself, which happens once, on zeroed
  substitutes for the operands that differ, or not at all if one of them cannot be made
  (`Factory.make_fails_only_in_build`). Conversions that are impossible are found by the first run,
  which names the first operand that cannot be converted.
-/

namespace KernelDispatch

/-- Of the wanted descriptors, the one of operand `p` is the first that the operand cannot be
    converted to, and the cause says why. -/
structure Descriptors.FailsFirst (ds wanted : Descriptors) (p : Operand) (cause : ConversionError) :
    Prop where
  fails : ∃ d t, ds.get? p = some d ∧ wanted.get? p = some t ∧ d.checkConversion t = .error cause
  first : ∀ q < p, ∀ t, wanted.get? q = some t →
    ∃ d, ds.get? q = some d ∧ d.checkConversion t = .ok ()

theorem Descriptors.convertsTo_eq_false {ds wanted : Descriptors} {p : Operand}
    {d t : Descriptor} {cause : ConversionError} (hd : ds.get? p = some d)
    (ht : wanted.get? p = some t) (hcheck : d.checkConversion t = .error cause) :
    ds.convertsTo wanted = false := by
  rw [Bool.eq_false_iff]
  intro hconv
  obtain ⟨d', hd', hok⟩ := (convertsTo_iff _ _).1 hconv p t ht
  rw [hd] at hd'
  cases hd'
  rw [hcheck] at hok
  cases hok

namespace Adapter

open Inquired

variable {α σ : Type}

/-- On bound operands a check ends at the first conversion that is impossible. -/
theorem checkFrom_eq_first {memory : Bindings} {es : List (Operand × Descriptor)} {e : Error}
    (hordered : es.Pairwise fun x y => x.1 < y.1)
    (hbound : ∀ x ∈ es, ∃ m, memory.get? x.1 = some m) (h : checkFrom memory es = .error e) :
    ∃ x ∈ es, ∃ m cause, memory.get? x.1 = some m ∧ m.desc.checkConversion x.2 = .error cause ∧
      e = .conversion x.1 cause ∧ ∀ y ∈ es, y.1 < x.1 → ∃ m', memory.get? y.1 = some m' ∧
        m'.desc.checkConversion y.2 = .ok () := by
  induction es with
  | nil => cases h
  | cons x es ih =>
    obtain ⟨p, d⟩ := x
    obtain ⟨hlt, hordered⟩ := List.pairwise_cons.1 hordered
    obtain ⟨⟨m, hm⟩, hbound⟩ := List.forall_mem_cons.1 hbound
    simp only [checkFrom, (memory.require_eq_ok_iff p m).2 hm] at h
    cases hcheck : m.desc.checkConversion d with
    | error cause =>
      rw [hcheck] at h
      cases h
      refine ⟨(p, d), List.mem_cons_self, m, cause, hm, hcheck, rfl, fun y hy hyp => ?_⟩
      rcases List.mem_cons.1 hy with rfl | hy
      · exact absurd hyp (KeyOrder.lt_irrefl _)
      · exact absurd (KeyOrder.lt_trans hyp (hlt y hy)) (KeyOrder.lt_irrefl _)
    | ok =>
      rw [hcheck] at h
      obtain ⟨x, hx, m', cause, hm', hcause, he, hfirst⟩ := ih hordered hbound h
      refine ⟨x, List.mem_cons_of_mem _ hx, m', cause, hm', hcause, he, ?_⟩
      exact List.forall_mem_cons.2 ⟨fun _ => ⟨m, hm, hcheck⟩, hfirst⟩

/-- If some operand cannot be converted to what the target wants, there is a first one, and that is
    what a check reports. -/
theorem checkFrom_differingFrom {target : Descriptors} {memory : Bindings}
    (hfails : memory.descriptors.convertsTo (target.differingFrom memory.descriptors) = false) :
    ∃ p cause, memory.descriptors.FailsFirst (target.differingFrom memory.descriptors) p cause ∧
      checkFrom memory (target.differingFrom memory.descriptors).entries =
        .error (.conversion p cause) := by
  cases hcheck : checkFrom memory (target.differingFrom memory.descriptors).entries with
  | ok =>
    rw [checkFrom_entries_eq_ok_iff, hfails] at hcheck
    cases hcheck
  | error e =>
    obtain ⟨⟨p, t⟩, hmem, m, cause, hm, hcause, rfl, hfirst⟩ := checkFrom_eq_first
      (target.differingFrom memory.descriptors).ordered
      (fun x hx => bound_of_differingFrom ((OrderedMap.get?_eq_some_iff _).2 hx)) hcheck
    refine ⟨p, cause, ⟨⟨m.desc, t, ?_, (OrderedMap.get?_eq_some_iff _).2 hmem, hcause⟩,
      fun q hq t' ht' => ?_⟩, rfl⟩
    · rw [Bindings.get?_descriptors, hm]
      rfl
    · obtain ⟨m', hm', hok⟩ := hfirst (q, t') ((OrderedMap.get?_eq_some_iff _).1 ht') hq
      exact ⟨m'.desc, by rw [Bindings.get?_descriptors, hm']; rfl, hok⟩

/-- With wanted descriptors that can all be allocated, the kernel is built once, on zeroed
    substitutes, and an adapter is built exactly if the kernel is. -/
theorem build_of_allocatable (k : Kernel α σ) (attrs : α) {target : Descriptors}
    {memory : Bindings} {w : World σ} (hs : w.PoolSound)
    (hall : (target.differingFrom memory.descriptors).Allocatable) :
    ∃ staged loans v, w.StandIns memory (target.differingFrom memory.descriptors) staged v ∧
      v.ambient = w.ambient ∧
      (∀ r s, k.build attrs staged v.toSession = (.ok r, s) →
        Adapter.build k attrs memory.descriptors target memory w =
          (.ok (around k memory.descriptors target (some r)),
            ({ v with toSession := s } : World σ).giveBack loans)) ∧
      ∀ e s, k.build attrs staged v.toSession = (.error e, s) →
        Adapter.build k attrs memory.descriptors target memory w =
          (.error (.construction k.name e),
            ({ v with toSession := s } : World σ).giveBack loans) := by
  obtain ⟨staged, loans, v, hstage, hborrows, hstand⟩ :=
    World.stageFrom_standIns (fun p t => bound_of_differingFrom) hall hs
  have hstageable : ((target.differingFrom memory.descriptors).all
      fun _ d => d.requiredBytes.isOk) = true := (Descriptors.stageable_iff _).2 hall
  refine ⟨staged, loans, v, hstand, hborrows.extension.ambient, fun r s hbuild => ?_,
    fun e s hbuild => ?_⟩
  · simp only [Adapter.build, hstageable, if_true, World.withStaged, hstage, World.run, hbuild]
    rfl
  · simp only [Adapter.build, hstageable, if_true, World.withStaged, hstage, World.run, hbuild]

/-- Under inquiry the one request is entered, and it decides whether there is an adapter. -/
theorem build_entered (k : Kernel α σ) (attrs : α) {target : Descriptors} {memory : Bindings}
    {w : World (Inquired σ)} (hs : w.PoolSound)
    (hall : (target.differingFrom memory.descriptors).Allocatable) :
    let r := Adapter.build (kernel 0 k) attrs memory.descriptors target memory w
    ∃ staged v failure, w.StandIns memory (target.differingFrom memory.descriptors) staged v ∧
      r.2.ambient.log = .build 0 staged v.store failure :: w.ambient.log ∧
      match failure with
      | none => ∃ a, r.1 = .ok a
      | some cause => r.1 = .error (.construction k.name cause) := by
  intro r
  obtain ⟨staged, loans, v, hstand, hambient, hok, herror⟩ :=
    build_of_allocatable (kernel 0 k) attrs hs hall
  obtain ⟨failure, hentered, hresult⟩ := kernel_build 0 k attrs staged v.toSession
  rw [hambient] at hentered
  refine ⟨staged, v, failure, hstand, ?_⟩
  cases failure with
  | none =>
    obtain ⟨runner, hrunner, -⟩ := hresult
    have hr : r = _ := hok _ _ (Prod.ext hrunner rfl)
    rw [hr]
    exact ⟨hentered, _, rfl⟩
  | some cause =>
    have hr : r = _ := herror _ _ (Prod.ext hresult.1 rfl)
    rw [hr]
    exact ⟨hentered, rfl⟩

/-- An adapter that was built for operands that cannot be converted names the first of them when it
    is run on them. -/
theorem execute_of_built {target : Descriptors} {memory : Bindings}
    (hfails : memory.descriptors.convertsTo (target.differingFrom memory.descriptors) = false) :
    ∃ p cause, memory.descriptors.FailsFirst (target.differingFrom memory.descriptors) p cause ∧
      ∀ (k : Kernel α σ) attrs w a,
        (Adapter.build k attrs memory.descriptors target memory w).1 = .ok a →
          ∀ v, a.execute memory v = (.error (.conversion p cause), v) := by
  obtain ⟨p, cause, hfirst, hcheck⟩ := checkFrom_differingFrom hfails
  refine ⟨p, cause, hfirst, fun k attrs w a hbuild v => ?_⟩
  obtain ⟨inner, rfl⟩ := exists_around_of_build (Prod.ext hbuild rfl)
  have hcheck : (around k memory.descriptors target inner).check memory =
      .error (.conversion p cause) := hcheck
  exact execute_of_check_error hcheck v

end Adapter

namespace Factory

open Inquired

variable {α σ : Type}

/-- The only candidate of a factory is built behind an adapter if it asks for other descriptors. -/
theorem make_of_preferred {f : Factory α σ} {k : Kernel α σ} (hf : f.candidates = [k])
    {memory : Bindings} {w : World σ} {target : Descriptors}
    (hprefers : (w.run (k.preferred f.attrs memory.descriptors)).1 = some target) :
    let asked := (w.run (k.preferred f.attrs memory.descriptors)).2
    let adapter := Adapter.build k f.attrs memory.descriptors target memory asked
    f.make memory w = (adapter.1.map fun a => .single (.adapted a), adapter.2) := by
  unfold make
  rw [hf]
  dsimp only
  rw [hprefers]
  unfold Instance.build
  dsimp only
  rcases Adapter.build k f.attrs memory.descriptors target memory
    (w.run (k.preferred f.attrs memory.descriptors)).2 with ⟨_ | _, _⟩ <;> rfl

/-- For every kernel, whatever other descriptors it asks for, and for all operands: if memories of
    the wanted descriptors can be made, the kernel is built once, on the given operands with zeroed
    memories of the wanted descriptors in place of exactly those that differ. The executor is made
    if this succeeds, and the failure is reported if it fails. Otherwise the kernel is not built,
    and the executor is made. If some operand cannot be converted to what the kernel asked for, a
    run of the executor on the same operands fails and names the first of them. -/
theorem make_fails_only_in_build [Operation α] {k : Kernel α σ} {attrs : α} {memory : Bindings}
    {w : World (Inquired σ)} {target : Descriptors}
    (hprefers : (k.preferred attrs memory.descriptors (view w.toSession)).1 = some target)
    (hsound : (w.run ((kernel 0 k).preferred attrs memory.descriptors)).2.PoolSound)
    (context : Context) (constraints : Constraints) :
    let f : Factory α (Inquired σ) := ⟨attrs, context, constraints, kernels [k]⟩
    let asked := (w.run ((kernel 0 k).preferred attrs memory.descriptors)).2
    let wanted := target.differingFrom memory.descriptors
    let made := f.make memory w
    (wanted.Allocatable → ∃ staged v failure, asked.StandIns memory wanted staged v ∧
      made.2.ambient.log = .build 0 staged v.store failure :: .preferred 0 :: w.ambient.log ∧
      (failure = none → ∃ e, made.1 = .ok e) ∧
      ∀ cause, failure = some cause → made.1 = .error (.construction k.name cause)) ∧
    (¬ wanted.Allocatable →
      made.2.ambient.log = .preferred 0 :: w.ambient.log ∧ ∃ e, made.1 = .ok e) ∧
    ((∃ p d t cause, memory.descriptors.get? p = some d ∧ wanted.get? p = some t ∧
        d.checkConversion t = .error cause) →
      ∃ p cause, memory.descriptors.FailsFirst wanted p cause ∧ ∀ e, made.1 = .ok e →
        ∀ v, e.execute memory v = (.error (.conversion p cause), e, v)) := by
  intro f asked wanted made
  let adapter := Adapter.build (kernel 0 k) attrs memory.descriptors target memory asked
  have hmade : made = (adapter.1.map fun a => .single (.adapted a), adapter.2) :=
    make_of_preferred (f := f) rfl hprefers
  have hlog : asked.ambient.log = .preferred 0 :: w.ambient.log := preferred_log 0 k attrs _ w
  refine ⟨fun hall => ?_, fun hnot => ?_, fun hfails => ?_⟩
  · obtain ⟨staged, v, failure, hstand, hentered, hresult⟩ :=
      Adapter.build_entered k attrs hsound hall
    refine ⟨staged, v, failure, hstand, ?_, fun hnone => ?_, fun cause hcause => ?_⟩
    · rw [hmade, ← hlog]
      exact hentered
    · subst hnone
      obtain ⟨a, ha⟩ := hresult
      rw [hmade, show adapter.1 = .ok a from ha]
      exact ⟨_, rfl⟩
    · subst hcause
      rw [hmade, show adapter.1 = _ from hresult]
      rfl
  · rw [hmade, show adapter = _ from Adapter.build_eq_none (kernel 0 k) attrs memory asked hnot]
    exact ⟨hlog, _, rfl⟩
  · obtain ⟨p, d, t, cause, hd, ht, hcheck⟩ := hfails
    obtain ⟨p, cause, hfirst, hrun⟩ :=
      Adapter.execute_of_built (Descriptors.convertsTo_eq_false hd ht hcheck)
    refine ⟨p, cause, hfirst, fun e he v => ?_⟩
    rw [hmade] at he
    cases hadapter : adapter.1 with
    | error _ =>
      rw [hadapter] at he
      cases he
    | ok a =>
      rw [hadapter] at he
      cases he
      show ((a.execute memory v).1, _, (a.execute memory v).2) = _
      rw [hrun (kernel 0 k) attrs asked a hadapter v]

/-- Wants all operands as integers. -/
def stubborn : Script :=
  { name := "stubborn", preference := some { wish := .replaced none (some .i32) } }

/-- Two matrices as integers. -/
def integerPair : Descriptors :=
  .ofList [(.source 0, ⟨.i32, .ofSizes [2, 2], .planar⟩),
    (.destination 0, ⟨.i32, .ofSizes [2, 2], .planar⟩)]

/-- Two matrices, and a buffer in the pool that is not clean. -/
def dirtyPool : World Journal where
  store := ⟨#[Bytes.zeros 16, Bytes.zeros 16, Array.replicate 32 255]⟩
  ambient := []
  scratch := { pool := [⟨2, 32⟩] }

/-- Numbers cannot be converted to integers, and still the kernel is built, on zeroed integers. A
    run names the source. -/
theorem stubborn_made :
    let memory := Script.matrixPair 0 1
    let k := stubborn.kernel .single
    let w := start dirtyPool
    let f : Factory Scaling (Inquired Journal) := ⟨⟨.zero⟩, .ofSettings default, ∅, kernels [k]⟩
    let wanted := integerPair.differingFrom memory.descriptors
    let made := f.make memory w
    ∃ e, made.1 = .ok e ∧
      (∃ staged v, (w.run ((kernel 0 k).preferred ⟨.zero⟩ memory.descriptors)).2.StandIns memory
          wanted staged v ∧
        made.2.ambient.log = [.build 0 staged v.store none, .preferred 0]) ∧
      ∃ p cause, memory.descriptors.FailsFirst wanted p cause ∧
        ∀ v, e.execute memory v = (.error (.conversion p cause), e, v) := by
  intro memory k w f wanted made
  have hprefers : (k.preferred ⟨.zero⟩ memory.descriptors (view w.toSession)).1 =
      some integerPair := rfl
  have hsound : (w.run ((kernel 0 k).preferred ⟨.zero⟩ memory.descriptors)).2.PoolSound := by
    refine ⟨fun b hb => ?_, by decide⟩
    rw [List.mem_singleton.1 hb]
    decide
  have hall : wanted.Allocatable := (Descriptors.stageable_iff _).1 rfl
  obtain ⟨e, he⟩ : ∃ e, made.1 = .ok e := ⟨_, rfl⟩
  obtain ⟨hstaged, -, hfails⟩ :=
    make_fails_only_in_build hprefers hsound (.ofSettings default) ∅
  refine ⟨e, he, ?_, ?_⟩
  · obtain ⟨staged, v, failure, hstand, hlog, -, hfailed⟩ := hstaged hall
    cases failure with
    | none => exact ⟨staged, v, hstand, hlog⟩
    | some cause =>
      have herror := hfailed cause rfl
      rw [show (make _ memory w).1 = .ok e from he] at herror
      cases herror
  · obtain ⟨p, cause, hfirst, hrun⟩ := hfails
      ⟨.source 0, _, _, .elementType .f32 .i32, rfl, rfl, rfl⟩
    exact ⟨p, cause, hfirst, hrun e he⟩

end Factory

end KernelDispatch
