import KernelDispatch.Proofs.Adapter.Run
import KernelDispatch.Proofs.Dispatch.Steady

/-
  What has been built of a steady kernel. It is described by the operands that it was built for
  (`SteadyKernel.Describes`). On the operands it was built for it gives the verdict of the kernel
  (`NewlyBuilt.answer`); on others of the same route it does so under one condition only, that it
  could be staged then exactly if it is to be staged now (`answer_eq_verdict_iff`), and if the
  kernel is coherent always (`Describes.answer`).
-/

namespace KernelDispatch

namespace Adapter

variable {σ : Type} {takes : Descriptors → Except Error Bool}

/-! ## Answers of adapters -/

theorem update_fst_of_reaches {a : Adapter σ} {memory : Bindings}
    (h : (a.follow memory.descriptors).Reaches memory)
    (ha : ∀ r, a.inner = some r → r.Answers takes) (w : World σ) :
    (a.update memory w).1 =
      takes (memory.descriptors.replacedBy (a.follow memory.descriptors).conversions) := by
  obtain ⟨hconv, ⟨r, hr⟩, hall⟩ := h
  obtain ⟨staged, w', hds, hstage⟩ := w.withStaged_fst memory
    (fun p d hd => (bound_of_convertsTo hconv hd).imp fun _ hm => hm.1) hall
    (fun staged w => w.run (r.update staged))
  have hans : r.Answers takes := ha r (by rw [← hr, follow_inner])
  unfold update
  simp only [(check_eq_ok_iff _ _).2 hconv, hr, hstage]
  rw [← hds]
  exact hans staged w'.toSession

/-! ## Building adapters -/

/-- Building runs the kernel's own building on staged operands if there are any. -/
theorem build_eq_some {α : Type} {k : Kernel α σ} (attrs : α) {target : Descriptors}
    {memory : Bindings} (w : World σ) {Q : Runner σ → Prop}
    (hk : ∀ b s, ∃ r, (k.build attrs b s).1 = .ok r ∧ Q r)
    (hall : (target.differingFrom memory.descriptors).Allocatable) :
    ∃ r w', Adapter.build k attrs memory.descriptors target memory w =
      (.ok (around k memory.descriptors target (some r)), w') ∧ Q r := by
  have hbound : ∀ e ∈ (target.differingFrom memory.descriptors).entries,
      ∃ m, memory.get? e.1 = some m := fun e he =>
    bound_of_differingFrom ((OrderedMap.get?_eq_some_iff _).2 he)
  obtain ⟨staged, loans, w₁, hstage, -⟩ := World.stageFrom_eq_ok memory _ hbound
    (fun e he => hall e.1 e.2 ((OrderedMap.get?_eq_some_iff _).2 he)) memory [] w
  obtain ⟨r, hr, hQ⟩ := hk staged w₁.toSession
  have hs : ((target.differingFrom memory.descriptors).all
      fun _ d => d.requiredBytes.isOk) = true := (Descriptors.stageable_iff _).2 hall
  refine ⟨r, (w₁.run (k.build attrs staged)).2.giveBack loans, ?_, hQ⟩
  unfold Adapter.build
  simp only [hs, if_true, World.withStaged, hstage, World.run, hr]
  rfl

theorem build_eq_none {α : Type} (k : Kernel α σ) (attrs : α) {target : Descriptors}
    (memory : Bindings) (w : World σ)
    (h : ¬ (target.differingFrom memory.descriptors).Allocatable) :
    Adapter.build k attrs memory.descriptors target memory w =
      (.ok (around k memory.descriptors target none), w) := by
  rw [← Descriptors.stageable_iff] at h
  exact if_neg h

end Adapter

namespace Instance

variable {α σ : Type}

@[simp] theorem name_update (memory : Bindings) (w : World σ) (built : Instance σ) :
    (built.update memory w).2.1.name = built.name := by
  cases built with
  | direct name r => rfl
  | adapted a =>
    show (a.update memory w).2.1.name = a.name
    rw [Adapter.update_adapter, Adapter.follow_name]

theorem build_name {k : Kernel α σ} {attrs : α} {ds : Descriptors}
    {preferred : Option Descriptors} {memory : Bindings} {w w' : World σ} {built : Instance σ}
    (h : build k attrs ds preferred memory w = (.ok built, w')) : built.name = k.name := by
  cases preferred with
  | none =>
    simp only [build] at h
    split at h <;> cases h
    rfl
  | some target =>
    simp only [build] at h
    split at h
    · rename_i a _ ha
      cases h
      obtain ⟨inner, rfl⟩ := Adapter.exists_around_of_build ha
      rfl
    · cases h

end Instance

namespace SteadyKernel

variable {α σ : Type} {attrs : α} {constraints : Constraints} {P : Descriptors → Prop}

/-! ## What stays built -/

/-- An adapter that was built for the operands `origin`. It still has the plan that it was built
    with, or it has been updated to other operands of the same route in the meantime. -/
structure DescribesAdapter (k : SteadyKernel σ attrs constraints) (P : Descriptors → Prop)
    (origin : Descriptors) (a : Adapter σ) : Prop where
  route : k.route origin = some a.targets
  answers : ∀ r, a.inner = some r → r.Answers k.takes
  built : (∃ r, a.inner = some r) ↔ k.Staged origin
  plan : (a.planned = origin ∧ a.conversions = k.conversions origin) ∨
    (a.conversions = a.planned.carriedTo a.targets ∧ ∃ other, k.Rivals P origin other)

/-- What has been built of the kernel for the operands `origin`. -/
def Describes (k : SteadyKernel σ attrs constraints) (P : Descriptors → Prop)
    (origin : Descriptors) : Instance σ → Prop
  | .direct _ r => k.route origin = none ∧ r.Answers k.takes
  | .adapted a => k.DescribesAdapter P origin a

theorem preferred_of_route_eq_none {k : SteadyKernel σ attrs constraints} {ds : Descriptors}
    (h : k.route ds = none) : k.preferred ds = none := by
  simpa [route, Route.of] using h

theorem carriedTo_of_route {k : SteadyKernel σ attrs constraints} {ds : Descriptors}
    {targets : OperandMap (ElementType × Layout)} (h : k.route ds = some targets) :
    ds.carriedTo targets = k.carried ds := by
  simp only [route, Route.of, Option.map_eq_some_iff] at h
  obtain ⟨target, ht, rfl⟩ := h
  simp only [carried, ht, Option.elim_some]
  rfl

/-- On the operands that an adapter still has its first plan for, nothing is planned again. -/
theorem follow_eq_of_home {a : Adapter σ} {origin : Descriptors} (h : a.planned = origin) :
    a.follow origin = a := by
  unfold Adapter.follow
  rw [if_pos h.symm]

/-- On all others the element types and layouts are carried over. -/
theorem DescribesAdapter.conversions_follow {k : SteadyKernel σ attrs constraints}
    {origin ds : Descriptors} {a : Adapter σ} (h : k.DescribesAdapter P origin a)
    (hroute : k.route ds = k.route origin)
    (haway : ¬ (a.planned = ds ∧ a.conversions = k.conversions ds ∧ ds = origin)) :
    (a.follow ds).conversions = k.carried ds := by
  have hcarried : ds.carriedTo a.targets = k.carried ds :=
    carriedTo_of_route (hroute.trans h.route)
  unfold Adapter.follow
  by_cases hds : ds = a.planned
  · rw [if_pos hds]
    rcases h.plan with ⟨hp, hc⟩ | ⟨hc, -⟩
    · have ho : ds = origin := hds.trans hp
      exact absurd ⟨hds.symm, by rw [hc, ho], ho⟩ haway
    · rw [hc, ← hds, hcarried]
  · rw [if_neg hds]
    exact hcarried

/-- Following operands of the same route, an adapter stays described by what it was built for. -/
theorem DescribesAdapter.follow {k : SteadyKernel σ attrs constraints} {origin ds : Descriptors}
    {a : Adapter σ} (h : k.DescribesAdapter P origin a) (ho : k.accepts origin = true)
    (hop : P origin) (hroute : k.route ds = k.route origin) (hds : k.accepts ds = true)
    (hdsp : P ds) : k.DescribesAdapter P origin (a.follow ds) := by
  refine ⟨by rw [Adapter.follow_targets, h.route], by rw [Adapter.follow_inner]; exact h.answers,
    by rw [Adapter.follow_inner]; exact h.built, ?_⟩
  by_cases hp : ds = a.planned
  · rw [show a.follow ds = a from if_pos hp]
    exact h.plan
  · refine .inr ⟨by unfold Adapter.follow; rw [if_neg hp]; rfl, ?_⟩
    rcases h.plan with ⟨hp', -⟩ | ⟨-, hother⟩
    · exact ⟨ds, fun he => hp (he ▸ hp'.symm), hroute.symm, ho, hds, hop, hdsp⟩
    · exact hother

/-- An adapter that carries element types and layouts over gives the verdict exactly if it was
    staged when it was built and would be now, or neither, unless the operands cannot be converted
    or are refused in any case. -/
theorem DescribesAdapter.answer_eq_verdict_iff {k : SteadyKernel σ attrs constraints}
    {origin : Descriptors} {a : Adapter σ} (h : k.DescribesAdapter P origin a) {memory : Bindings}
    (hf : (a.follow memory.descriptors).conversions = k.carried memory.descriptors)
    (w : World σ) :
    (a.update memory w).1 = k.verdict memory.descriptors ↔ (k.Poised memory.descriptors →
      ((k.KeepsShapes memory.descriptors ∧ k.Staged memory.descriptors) ↔ k.Staged origin)) := by
  generalize hds : memory.descriptors = ds at hf ⊢
  have hready : k.KeepsShapes ds ∧ k.Staged ds → (k.carried ds).Allocatable := fun hk => by
    rw [← conversions_eq_carried hk.1]; exact hk.2
  by_cases hconv : ds.convertsTo (k.carried ds) = true
  · have hverdict : k.KeepsShapes ds ∧ k.Staged ds →
        k.verdict ds = k.takes (ds.replacedBy (k.carried ds)) := fun hk => by
      rw [verdict_of_staged (by rw [conversions_eq_carried hk.1]; exact hconv) hk.2,
        conversions_eq_carried hk.1]
    have hpoised : k.Poised ds ↔ ¬ ((k.carried ds).Allocatable ∧
        k.takes (ds.replacedBy (k.carried ds)) = .ok false) := by simp [Poised, hconv]
    by_cases ho : k.Staged origin
    · by_cases hall : (k.carried ds).Allocatable
      · have hreach : (a.follow memory.descriptors).Reaches memory := by
          refine ⟨by rw [hds, hf]; exact hconv, ?_, by rw [hds, hf]; exact hall⟩
          rw [Adapter.follow_inner]
          exact h.built.2 ho
        have hans : (a.update memory w).1 = k.takes (ds.replacedBy (k.carried ds)) := by
          rw [Adapter.update_fst_of_reaches hreach h.answers w, hds, hf]
        rw [hans, hpoised]
        by_cases hk : k.KeepsShapes ds ∧ k.Staged ds
        · simp [hverdict hk, hk, ho]
        · rw [verdict_eq_false hk]
          simp [hall, hk, ho]
      · obtain ⟨e, he⟩ := Adapter.update_fst_of_unallocatable
          (by rw [hds, hf]; exact hconv) (h.built.2 ho) (by rw [hds, hf]; exact hall) w
        have hk : ¬ (k.KeepsShapes ds ∧ k.Staged ds) := fun hk => hall (hready hk)
        rw [he, verdict_eq_false hk, hpoised]
        simp [hall, hk, ho]
    · have hans : (a.update memory w).1 = .ok false :=
        Adapter.update_fst_of_refused (fun hr => ho (h.built.1 hr.2)) w
      rw [hans, hpoised]
      by_cases hk : k.KeepsShapes ds ∧ k.Staged ds
      · simp [hverdict hk, hready hk, hk, ho, eq_comm]
      · simp [verdict_eq_false hk, hk, ho]
  · have hans : (a.update memory w).1 = .ok false :=
      Adapter.update_fst_of_refused (fun hr => hconv (by rw [← hf, ← hds]; exact hr.1)) w
    have hverdict : k.verdict ds = .ok false := by
      by_cases hk : k.KeepsShapes ds
      · exact verdict_of_not_converts (by rw [conversions_eq_carried hk]; exact hconv)
      · exact verdict_eq_false fun hk' => hk hk'.1
    rw [hans, hverdict]
    simp [Poised, hconv]

/-- A kernel built for the operands, before any update. -/
def NewlyBuilt (k : SteadyKernel σ attrs constraints) (P : Descriptors → Prop)
    (ds : Descriptors) : Instance σ → Prop
  | .direct _ r => k.route ds = none ∧ r.Answers k.takes
  | .adapted a => k.DescribesAdapter P ds a ∧ a.planned = ds ∧ a.conversions = k.conversions ds

theorem NewlyBuilt.describes {k : SteadyKernel σ attrs constraints} {ds : Descriptors}
    {built : Instance σ} (h : k.NewlyBuilt P ds built) : k.Describes P ds built := by
  cases built with
  | direct name r => exact h
  | adapted a => exact h.1

theorem route_eq_some {k : SteadyKernel σ attrs constraints} {ds target : Descriptors}
    (h : k.preferred ds = some target) : k.route ds = some target.formats := by
  simp only [route, Route.of, h, Option.map_some]
  rfl

/-- A steady kernel can be built for all operands. -/
theorem build_newlyBuilt (k : SteadyKernel σ attrs constraints) (P : Descriptors → Prop)
    (memory : Bindings) (w : World σ) : ∃ built w', Instance.build k.kernel attrs memory.descriptors
      (k.preferred memory.descriptors) memory w = (.ok built, w') ∧
        k.NewlyBuilt P memory.descriptors built := by
  cases hpref : k.preferred memory.descriptors with
  | none =>
    obtain ⟨r, hr, hans⟩ := k.builds memory w.toSession
    refine ⟨.direct k.kernel.name r, (w.run (k.kernel.build attrs memory)).2, ?_, ?_, hans⟩
    · simp only [Instance.build, World.run, hr]
    · simp only [route, Route.of, hpref, Option.map_none]
  | some target =>
    have hroute := route_eq_some hpref
    have hconv : k.conversions memory.descriptors = target.differingFrom memory.descriptors := by
      simp only [conversions, hpref, Option.elim_some]
    have hstaged : k.Staged memory.descriptors ↔
        (target.differingFrom memory.descriptors).Allocatable := by rw [Staged, hconv]
    by_cases hs : k.Staged memory.descriptors
    · obtain ⟨r, w', hbuild, hans⟩ :=
        Adapter.build_eq_some attrs w k.builds (hstaged.1 hs)
      refine ⟨.adapted (Adapter.around k.kernel memory.descriptors target (some r)), w',
        by simp only [Instance.build, hbuild], ⟨hroute, ?_, ?_, ?_⟩, rfl, hconv.symm⟩
      · rintro _ ⟨⟩
        exact hans
      · exact ⟨fun _ => hs, fun _ => ⟨r, rfl⟩⟩
      · exact .inl ⟨rfl, hconv.symm⟩
    · have hbuild := Adapter.build_eq_none k.kernel attrs memory w (mt hstaged.2 hs)
      refine ⟨.adapted (Adapter.around k.kernel memory.descriptors target none), w,
        by simp only [Instance.build, hbuild], ⟨hroute, ?_, ?_, ?_⟩, rfl, hconv.symm⟩
      · rintro _ ⟨⟩
      · refine ⟨?_, fun h => absurd h hs⟩
        rintro ⟨_, ⟨⟩⟩
      · exact .inl ⟨rfl, hconv.symm⟩

/-- What is newly built gives the verdict on the operands that it was built for. -/
theorem NewlyBuilt.answer {k : SteadyKernel σ attrs constraints} {memory : Bindings}
    {built : Instance σ} (h : k.NewlyBuilt P memory.descriptors built) (w : World σ) :
    (built.update memory w).1 = k.verdict memory.descriptors := by
  cases built with
  | direct name r =>
    rw [verdict_of_no_preference (preferred_of_route_eq_none h.1)]
    exact h.2 memory w.toSession
  | adapted a =>
    obtain ⟨ha, hplanned, hconv⟩ := h
    have hfollow : a.follow memory.descriptors = a := by
      rw [← hplanned]
      exact follow_eq_of_home rfl
    show (a.update memory w).1 = _
    by_cases hr : memory.descriptors.convertsTo (k.conversions memory.descriptors) = true ∧
        k.Staged memory.descriptors
    · have hreach : (a.follow memory.descriptors).Reaches memory := by
        rw [hfollow]
        exact ⟨by rw [hconv]; exact hr.1, ha.built.2 hr.2, by rw [hconv]; exact hr.2⟩
      rw [Adapter.update_fst_of_reaches hreach ha.answers w, hfollow, hconv,
        verdict_of_staged hr.1 hr.2]
    · rw [Adapter.update_fst_of_refused (fun hc => hr ?_) w]
      · by_cases hc : memory.descriptors.convertsTo (k.conversions memory.descriptors) = true
        · exact (verdict_of_not_staged fun hs => hr ⟨hc, hs⟩).symm
        · exact (verdict_of_not_converts hc).symm
      · rw [hfollow, hconv] at hc
        exact ⟨hc.1, ha.built.1 hc.2⟩

/-- Whatever a coherent kernel was built for, it gives the verdict on all operands of the same
    route. -/
theorem Describes.answer {k : SteadyKernel σ attrs constraints} {origin : Descriptors}
    {built : Instance σ} (h : k.Describes P origin built) (hk : k.Coherent P)
    (ho : k.accepts origin = true) (hop : P origin) {memory : Bindings}
    (hroute : k.route memory.descriptors = k.route origin)
    (hds : k.accepts memory.descriptors = true) (hdsp : P memory.descriptors) (w : World σ) :
    (built.update memory w).1 = k.verdict memory.descriptors := by
  cases built with
  | direct name r =>
    have hnew : k.NewlyBuilt P memory.descriptors (.direct name r) := ⟨hroute.trans h.1, h.2⟩
    exact hnew.answer w
  | adapted a =>
    by_cases hhome : a.planned = memory.descriptors ∧
        a.conversions = k.conversions memory.descriptors ∧ memory.descriptors = origin
    · obtain ⟨hp, hc, rfl⟩ := hhome
      have hnew : k.NewlyBuilt P memory.descriptors (.adapted a) := ⟨h, hp, hc⟩
      exact hnew.answer w
    · refine (h.answer_eq_verdict_iff (h.conversions_follow hroute hhome) w).2 fun hpoised => ?_
      have hrivals : ∃ other, k.Rivals P memory.descriptors other := by
        by_cases hne : memory.descriptors = origin
        · rcases h.plan with ⟨hp, hc⟩ | ⟨-, other, hother⟩
          · exact absurd ⟨hp.trans hne.symm, by rw [hc, hne], hne⟩ hhome
          · exact ⟨other, hne ▸ hother⟩
        · exact ⟨origin, hne, hroute, hds, ho, hdsp, hop⟩
      obtain ⟨other, hother⟩ := hrivals
      by_cases hne : memory.descriptors = origin
      · obtain ⟨-, hkeeps⟩ := hk _ _ hother hpoised
        rw [← hne]
        exact ⟨fun h => h.2, fun hs => ⟨hkeeps hs, hs⟩⟩
      · obtain ⟨hboth, hkeeps⟩ := hk _ _ ⟨hne, hroute, hds, ho, hdsp, hop⟩ hpoised
        exact ⟨fun h => hboth.1 h.2, fun hs => ⟨hkeeps (hboth.2 hs), hboth.2 hs⟩⟩

/-- Updates do not change what a kernel was built for. -/
theorem Describes.update {k : SteadyKernel σ attrs constraints} {origin : Descriptors}
    {built : Instance σ} (h : k.Describes P origin built)
    (ho : k.accepts origin = true) (hop : P origin) {memory : Bindings}
    (hroute : k.route memory.descriptors = k.route origin)
    (hds : k.accepts memory.descriptors = true) (hdsp : P memory.descriptors) (w : World σ) :
    k.Describes P origin (built.update memory w).2.1 := by
  cases built with
  | direct name r => exact h
  | adapted a =>
    show k.DescribesAdapter P origin (a.update memory w).2.1
    rw [Adapter.update_adapter]
    exact h.follow ho hop hroute hds hdsp

end SteadyKernel

end KernelDispatch
