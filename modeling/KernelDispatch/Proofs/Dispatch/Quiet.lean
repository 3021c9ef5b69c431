import KernelDispatch.Factory
import KernelDispatch.Proofs.Adapter.Calls
import KernelDispatch.Proofs.Dispatch.Conduct

/-
  Kernels that change nothing until they are run. Between two runs an executor made of such kernels
  borrows from the pool and gives back, and everything that is held keeps its bytes (`World.Spares`).
  What such an executor consists of has the names and the properties of what its kernels build, after
  every history (`Executor.MadeOf.after`).
-/

namespace KernelDispatch

variable {α σ : Type}

namespace World

/-- If the pool is sound, it stays sound, and what is held keeps its bytes. -/
def Spares (w w' : World σ) : Prop := w.PoolSound → w.Extends w' ∧ w'.PoolSound

theorem Spares.refl (w : World σ) : w.Spares w := fun hs => ⟨.refl w, hs⟩

theorem Spares.trans {w w' w'' : World σ} (h : w.Spares w') (h' : w'.Spares w'') :
    w.Spares w'' := by
  intro hs
  obtain ⟨hext, hs'⟩ := h hs
  obtain ⟨hext', hs''⟩ := h' hs'
  exact ⟨hext.trans hext', hs''⟩

theorem Spares.owns {w w' : World σ} (h : w.Spares w') {memory : Bindings} (ho : w.Owns memory) :
    w'.Owns memory := by
  obtain ⟨hext, hs⟩ := h ho.sound
  exact (hext.preserves hs).owns ho

/-- Loans that come back untouched. -/
theorem Borrows.spares {w w' : World σ} {loans : List Loan} (h : w.Borrows loans w') :
    w.Spares (w'.giveBack loans) := by
  intro hs
  have hkept := h.preserves (.refl w')
  exact ⟨⟨hkept.held, fun c hc => h.extension.bytes c hc, h.extension.ambient⟩, hkept.sound hs⟩

theorem withStaged_spares {β : Type} (w : World σ) (memory : Bindings) (wanted : Descriptors)
    {body : Bindings → World σ → Except Error β × World σ}
    (hbody : ∀ staged w, (body staged w).2 = w) : w.Spares (w.withStaged memory wanted body).2 := by
  intro hs
  obtain ⟨result, loans, w₁, hstage, hborrows⟩ :=
    stageFrom_borrows memory wanted.entries memory [] hs
  have hspares := hborrows.spares hs
  unfold withStaged
  rw [hstage]
  cases result with
  | error e => exact hspares
  | ok staged =>
    show w.Extends ((body staged w₁).2.giveBack loans) ∧
      ((body staged w₁).2.giveBack loans).PoolSound
    rw [hbody]
    exact hspares

end World

/-- A runner that changes nothing when it is updated. -/
def Runner.Quiet (r : Runner σ) : Prop := ∀ b s, (r.update b s).2 = s

/-- A kernel that changes nothing when it is asked or built, and builds runners with the property
    `P`. -/
structure Kernel.Quiet (k : Kernel α σ) (attrs : α) (constraints : Constraints)
    (P : Runner σ → Prop) : Prop where
  supports : ∀ ds s, (k.supports attrs ds constraints s).2 = s
  acceptsShapes : ∀ memory s, (k.acceptsShapes memory s).2 = s
  preferred : ∀ ds s, (k.preferred attrs ds s).2 = s
  build : ∀ memory s, ∃ r, k.build attrs memory s = (.ok r, s) ∧ P r

namespace Instance

variable {attrs : α} {constraints : Constraints} {P : Runner σ → Prop}

/-- The runner, if it has been built, has the property. -/
def Has (P : Runner σ → Prop) (built : Instance σ) : Prop := ∀ r, built.runner? = some r → P r

theorem Has.update {built : Instance σ} (h : built.Has P) (memory : Bindings) (w : World σ) :
    (built.update memory w).2.1.Has P := by
  intro r hr
  rw [runner?_update] at hr
  exact h r hr

theorem build_spares {k : Kernel α σ} (hk : k.Quiet attrs constraints P) {ds : Descriptors}
    {preferred : Option Descriptors} {memory : Bindings} {w w' : World σ}
    {result : Except Error (Instance σ)} (h : build k attrs ds preferred memory w = (result, w')) :
    w.Spares w' := by
  cases preferred with
  | none =>
    obtain ⟨r, hr, -⟩ := hk.build memory w.toSession
    simp only [build, World.run, hr, Prod.mk.injEq] at h
    obtain ⟨-, rfl⟩ := h
    exact .refl w
  | some target =>
    have hspares : w.Spares (Adapter.build k attrs ds target memory w).2 := by
      unfold Adapter.build
      dsimp only
      split
      · refine w.withStaged_spares memory _ fun staged w => ?_
        obtain ⟨r, hr, -⟩ := hk.build staged w.toSession
        simp only [World.run, hr]
      · exact .refl w
    have hw' : w' = (Adapter.build k attrs ds target memory w).2 := by
      simp only [build] at h
      split at h <;> rename_i heq <;> rw [heq] <;> exact (Prod.mk.inj h).2.symm
    rw [hw']
    exact hspares

theorem build_has {k : Kernel α σ} (hk : k.Quiet attrs constraints P) {ds : Descriptors}
    {preferred : Option Descriptors} {memory : Bindings} {w w' : World σ} {built : Instance σ}
    (h : build k attrs ds preferred memory w = (.ok built, w')) : built.Has P := by
  intro r hr
  rcases build_runner h with ⟨-, hnone⟩ | ⟨staged, s, -, -, -, hsome⟩
  · rw [hnone built rfl] at hr
    cases hr
  · obtain ⟨r', hr', hbuilt⟩ := hsome built rfl
    obtain ⟨r'', hr'', hP⟩ := hk.build staged s
    rw [hr''] at hr'
    cases hr'
    rw [hbuilt] at hr
    cases hr
    exact hP

theorem update_spares {built : Instance σ} (h : built.Has Runner.Quiet) (memory : Bindings)
    (w : World σ) : w.Spares (built.update memory w).2.2 := by
  cases built with
  | direct name r =>
    have hquiet : (w.run (r.update memory)).2 = w := by
      show ({ w with toSession := (r.update memory w.toSession).2 } : World σ) = w
      rw [h r rfl]
    show w.Spares (w.run (r.update memory)).2
    rw [hquiet]
    exact .refl w
  | adapted a =>
    show w.Spares (a.update memory w).2.2
    unfold Adapter.update
    dsimp only
    split
    · rename_i r _ hinner
      rw [Adapter.follow_inner] at hinner
      refine w.withStaged_spares memory _ fun staged w => ?_
      show ({ w with toSession := (r.update staged w.toSession).2 } : World σ) = w
      rw [h r hinner]
    · exact .refl w

end Instance

section Executors

open Dispatcher

variable {ks : List (Kernel α σ)} {attrs : α} {constraints : Constraints}
  {P : String → Runner σ → Prop} {Q : Nat → Descriptors → Prop}

/-- What has been built of candidate `i`: it has the name of the candidate, and its runner the
    property that goes with the name. -/
structure Instance.BuiltOf (ks : List (Kernel α σ)) (P : String → Runner σ → Prop) (i : Nat)
    (built : Instance σ) : Prop where
  named : ∃ k, ks[i]? = some k ∧ built.name = k.name
  has : built.Has (P built.name)

theorem Instance.BuiltOf.update {i : Nat} {built : Instance σ} (h : built.BuiltOf ks P i)
    (memory : Bindings) (w : World σ) : (built.update memory w).2.1.BuiltOf ks P i := by
  refine ⟨?_, ?_⟩
  · rw [name_update]
    exact h.named
  · rw [name_update]
    exact h.has.update memory w

theorem Instance.BuiltOf.of_build {i : Nat} {k : Kernel α σ} (hi : ks[i]? = some k)
    (hk : k.Quiet attrs constraints (P k.name)) {ds : Descriptors}
    {preferred : Option Descriptors} {memory : Bindings} {w w' : World σ} {built : Instance σ}
    (h : build k attrs ds preferred memory w = (.ok built, w')) : built.BuiltOf ks P i := by
  refine ⟨⟨k, hi, build_name h⟩, ?_⟩
  rw [build_name h]
  exact build_has hk h

/-- Candidates that change nothing make a dispatcher whose updates spare what is held. -/
theorem Dispatcher.quiet_conduct (hP : ∀ name r, P name r → r.Quiet)
    (hks : ∀ k ∈ ks, k.Quiet attrs constraints (P k.name)) :
    Conduct ks attrs constraints World.Spares (Instance.BuiltOf ks P) := by
  have hrun : ∀ {β : Type} (w : World σ) (step : Session σ → β × Session σ),
      (∀ s, (step s).2 = s) → w.Spares (w.run step).2 := by
    intro β w step hstep
    show w.Spares { w with toSession := (step w.toSession).2 }
    rw [hstep]
    exact .refl w
  refine ⟨.refl, .trans, fun k hk ds w => hrun w _ ((hks k hk).supports ds),
    fun k hk memory w => hrun w _ ((hks k hk).acceptsShapes memory),
    fun k hk ds w => hrun w _ ((hks k hk).preferred ds),
    fun i k hk preferred memory w r w' hbuild => ?_, fun i built hbuilt memory w => ?_⟩
  · have hquiet := hks k (List.mem_of_getElem? hk)
    refine ⟨Instance.build_spares hquiet hbuild, fun built hb => ?_⟩
    rw [hb] at hbuild
    exact .of_build hk hquiet hbuild
  · exact ⟨Instance.update_spares (fun r hr => hP _ r (hbuilt.has r hr)) memory w,
      hbuilt.update memory w⟩

/-- The executor is what one candidate has built, or a dispatcher over another number of them. -/
inductive Executor.MadeOf (ks : List (Kernel α σ)) (attrs : α) (constraints : Constraints)
    (P : String → Runner σ → Prop) (Q : Nat → Descriptors → Prop) : Executor α σ → Prop
  | single {built : Instance σ} (builtOf : built.BuiltOf ks P 0) (length : ks.length = 1) :
    MadeOf ks attrs constraints P Q (.single built)
  | deferred {d : Dispatcher α σ} (length : ks.length ≠ 1)
    (tended : Tended ks attrs constraints (Instance.BuiltOf ks P) Q d) :
    MadeOf ks attrs constraints P Q (.deferred d)

theorem Factory.make_madeOf {f : Factory α σ}
    (hks : ∀ k ∈ f.candidates, k.Quiet f.attrs f.constraints (P k.name))
    (Q : Nat → Descriptors → Prop) {memory : Bindings} {w w' : World σ} {e : Executor α σ}
    (h : f.make memory w = (.ok e, w')) :
    Executor.MadeOf f.candidates f.attrs f.constraints P Q e := by
  unfold Factory.make at h
  split at h
  · rename_i k hone
    have hk : k.Quiet f.attrs f.constraints (P k.name) :=
      hks k (by rw [hone]; exact List.mem_singleton_self k)
    dsimp only at h
    split at h
    · rename_i built w₁ hbuild
      cases h
      exact .single (.of_build (by rw [hone]; rfl) hk hbuild) (by rw [hone]; rfl)
    · cases h
  · rename_i hmany
    cases h
    refine .deferred (fun hone => ?_) (tended_ofCandidates _ _ _ _ Q _)
    obtain ⟨k, hk⟩ := List.length_eq_one_iff.1 hone
    exact hmany k hk

theorem Executor.MadeOf.after [Operation α] (hP : ∀ name r, P name r → r.Quiet)
    (hks : ∀ k ∈ ks, k.Quiet attrs constraints (P k.name)) (hv : Vets ks attrs constraints Q)
    {s : Executor α σ × World σ} (h : Executor.MadeOf ks attrs constraints P Q s.1)
    (calls : List (Call σ)) :
    Executor.MadeOf ks attrs constraints P Q (Executor.after s calls).1 := by
  obtain ⟨e, w⟩ := s
  cases h with
  | single builtOf length =>
    rename_i built
    rw [Executor.after_single (built, w) calls]
    refine .single ?_ length
    exact Instance.after_induction (P := fun built => built.BuiltOf ks P 0)
      (fun memory _ built w hb => hb.update memory w) builtOf
  | deferred length tended =>
    rename_i d
    rw [Executor.after_deferred (d, w) calls]
    have htended : Tended ks attrs constraints (Instance.BuiltOf ks P) Q (d, w).1 := tended
    exact .deferred length (htended.after (quiet_conduct hP hks) hv calls)

/-- A factory selects some of the kernels it is given. -/
theorem mem_of_supporting {ds : Descriptors} {priority : Option String} {s : Session σ}
    {k : Kernel α σ} (hk : k ∈ (supporting attrs ds constraints priority ks s).1) : k ∈ ks := by
  induction ks generalizing s with
  | nil => cases hk
  | cons k' ks ih =>
    rw [supporting] at hk
    split at hk
    · exact List.mem_cons_of_mem _ (ih hk)
    · split at hk
      · exact List.mem_cons_of_mem _ (ih hk)
      · split at hk
        · rw [List.mem_singleton.1 hk]
          exact List.mem_cons_self
        · rcases List.mem_cons.1 hk with rfl | hk
          · exact List.mem_cons_self
          · exact List.mem_cons_of_mem _ (ih hk)

theorem Factory.of_select [Operation α] {context : Context} {pattern : Descriptors}
    {priority : Option String} {s s' : Session σ} {f : Factory α σ}
    (h : Factory.select ks attrs context pattern constraints priority s = (.ok f, s')) :
    f.attrs = attrs ∧ f.constraints = constraints ∧ ∀ k ∈ f.candidates, k ∈ ks := by
  unfold Factory.select at h
  split at h
  · rename_i found s₁ hfound
    cases h
    refine ⟨rfl, rfl, fun k hk => ?_⟩
    unfold KernelDispatch.candidates at hfound
    split at hfound
    · cases hfound
    · rename_i found' s₂ _ heq
      cases hfound
      have hmem : k ∈ (supporting attrs pattern constraints
          (priorityIn α context priority) ks s).1 := by
        rw [heq]
        exact hk
      exact mem_of_supporting hmem
  · cases h

end Executors

end KernelDispatch
