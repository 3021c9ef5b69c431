import KernelDispatch.Context
import KernelDispatch.Instance
import KernelDispatch.Proofs.Adapter.Plan
import KernelDispatch.Proofs.Memory.Ownership

/-
  The accounts of a scratch pool. While `n` loans are out, a pool that recycles has as many buffers
  as were ever allocated, up to `n` and up to its limit; a pool that releases stays empty
  (`Scratch.Balanced`). A loan adds one to `n` and its return takes one away
  (`balanced_acquire`, `balanced_release`). Staging returns whatever it borrowed, however it ends,
  so a call of an adapter leaves the accounts as it finds them (`Instance.balanced_update`,
  `Instance.balanced_execute`, `Instance.balanced_build`).
-/

namespace KernelDispatch

namespace Scratch

/-- The pool is in order while `n` loans are out. -/
structure Balanced (policy : ReusePolicy) (n : Nat) (sc : Scratch) : Prop where
  policy_eq : sc.policy = policy
  /-- A buffer that was allocated is pooled or out, unless the pool is full. -/
  recycled : policy = .recycle → sc.pool.length ≤ poolLimit ∧
    min poolLimit sc.allocations ≤ sc.pool.length + n ∧ sc.pool.length + n ≤ sc.allocations
  /-- Nothing is kept, so nothing is used again. -/
  released : policy = .release → sc.pool = [] ∧ sc.reuses = 0

variable {policy : ReusePolicy} {n : Nat} {sc : Scratch}

theorem balanced_scratch (c : Context) : c.scratch.Balanced c.reuse 0 :=
  ⟨rfl, fun _ => ⟨Nat.zero_le _, Nat.min_le_right _ _, Nat.le_refl _⟩, fun _ => ⟨rfl, rfl⟩⟩

/-- With no loan out, the number of pooled buffers is known. -/
theorem Balanced.length_pool (h : sc.Balanced .recycle 0) :
    sc.pool.length = min poolLimit sc.allocations := by
  obtain ⟨hlimit, hlower, hupper⟩ := h.recycled rfl
  omega

/-- A loan comes out of the pool, or out of a new allocation. -/
theorem balanced_acquire (h : sc.Balanced policy n) {s s' : Store} {d : Descriptor} {loan : Loan}
    {sc' : Scratch} (hloan : sc.acquire s d = .ok (loan, sc', s')) :
    sc'.Balanced policy (n + 1) := by
  obtain ⟨size, -, hserved | hserved⟩ := acquire_serves hloan
  · have hlength : sc'.pool.length + 1 = sc.pool.length := hserved.taken.length_eq
    refine ⟨hserved.policy_eq.trans h.policy_eq, fun hrecycle => ?_, fun hrelease => ?_⟩
    · obtain ⟨hlimit, hlower, hupper⟩ := h.recycled hrecycle
      have hallocations := hserved.allocations_eq
      omega
    · rw [(h.released hrelease).1] at hlength
      cases hlength
  · refine ⟨hserved.policy_eq.trans h.policy_eq, fun hrecycle => ?_, fun hrelease => ?_⟩
    · obtain ⟨hlimit, hlower, hupper⟩ := h.recycled hrecycle
      rw [hserved.pool_eq, hserved.allocations_eq]
      omega
    · rw [hserved.pool_eq, hserved.reuses_eq]
      exact h.released hrelease

/-- A buffer that is returned joins the pool, or the pool is full. -/
theorem balanced_release (h : sc.Balanced policy (n + 1)) (loan : Loan) :
    (sc.release loan false).Balanced policy n := by
  rcases sc.release_cases loan false with ⟨hgone, hsame⟩ | ⟨hrecycle, -, hroom, hjoins⟩
  · rw [hsame]
    refine ⟨h.policy_eq, fun hrecycle => ?_, h.released⟩
    obtain ⟨hlimit, hlower, hupper⟩ := h.recycled hrecycle
    have hfull : poolLimit ≤ sc.pool.length := by
      rcases hgone with hrelease | hshared | hfull
      · rw [h.policy_eq, hrecycle] at hrelease
        cases hrelease
      · cases hshared
      · exact hfull
    omega
  · rw [hjoins]
    refine ⟨h.policy_eq, fun hpolicy => ?_, fun hrelease => ?_⟩
    · obtain ⟨hlimit, hlower, hupper⟩ := h.recycled hpolicy
      simp only [List.length_append, List.length_singleton]
      omega
    · rw [← h.policy_eq, hrecycle] at hrelease
      cases hrelease

theorem balanced_releaseAll {loans : List Loan} (h : sc.Balanced policy (n + loans.length)) :
    (sc.releaseAll loans).Balanced policy n := by
  induction loans generalizing sc with
  | nil => exact h
  | cons loan loans ih => exact ih (balanced_release h loan)

end Scratch

namespace World

variable {σ β : Type} {policy : ReusePolicy}

theorem balanced_lend {n : Nat} {w w' : World σ} (h : w.scratch.Balanced policy n) {d : Descriptor}
    {loan : Loan} (hloan : w.lend d = .ok (loan, w')) : w'.scratch.Balanced policy (n + 1) := by
  unfold lend at hloan
  split at hloan
  · rename_i hacquire
    cases hloan
    exact Scratch.balanced_acquire h hacquire
  · cases hloan

/-- Staging accounts for its loans, even if it fails on the way. -/
theorem balanced_stageFrom (memory : Bindings) (wanted : List (Operand × Descriptor))
    (staged : Bindings) (loans : List Loan) {w : World σ}
    (h : w.scratch.Balanced policy loans.length) :
    (stageFrom memory wanted staged loans w).2.2.scratch.Balanced policy
      (stageFrom memory wanted staged loans w).2.1.length := by
  induction wanted generalizing staged loans w with
  | nil => exact h
  | cons e wanted ih =>
    obtain ⟨p, d⟩ := e
    rw [stageFrom]
    cases memory.require p with
    | error e => exact h
    | ok m =>
      dsimp only
      cases hlend : w.lend d with
      | error e => exact h
      | ok found =>
        obtain ⟨loan, w'⟩ := found
        refine ih _ _ ?_
        rw [List.length_append, List.length_singleton]
        exact balanced_lend h hlend

/-- Whatever is borrowed for a step is returned, if the step leaves the pool alone. -/
theorem balanced_withStaged {w : World σ} (h : w.scratch.Balanced policy 0) (memory : Bindings)
    (wanted : Descriptors) {body : Bindings → World σ → Except Error β × World σ}
    (hbody : ∀ staged w, (body staged w).2.scratch = w.scratch) :
    (w.withStaged memory wanted body).2.scratch.Balanced policy 0 := by
  have hstaged := balanced_stageFrom memory wanted.entries memory [] h
  unfold withStaged
  rcases hstage : stageFrom memory wanted.entries memory [] w with ⟨_ | staged, loans, w'⟩ <;>
    rw [hstage, ← Nat.zero_add loans.length] at hstaged
  · exact Scratch.balanced_releaseAll hstaged
  · refine Scratch.balanced_releaseAll ?_
    rw [hbody]
    exact hstaged

theorem run_scratch (w : World σ) (step : Session σ → β × Session σ) :
    (w.run step).2.scratch = w.scratch := rfl

theorem convertOperands_scratch (source target : Bindings) (ps : List Operand) (w : World σ) :
    (convertOperands source target ps w).2.scratch = w.scratch := by
  obtain ⟨store, hstore⟩ := convertOperands_snd source target ps w
  rw [hstore]

end World

variable {α σ : Type} {policy : ReusePolicy}

namespace Adapter

/-! ## What an adapter stages -/

/-- A kernel is built in a step on staged operands that leaves the pool alone. -/
theorem build_eq_withStaged (k : Kernel α σ) (attrs : α) {descs target : Descriptors}
    (hall : (target.differingFrom descs).Allocatable) (memory : Bindings) :
    ∃ body : Bindings → World σ → Except Error (Adapter σ) × World σ,
      (∀ staged w, (body staged w).2.scratch = w.scratch) ∧
      ∀ w, build k attrs descs target memory w =
        w.withStaged memory (target.differingFrom descs) body := by
  have hstageable : ((target.differingFrom descs).all fun _ d => d.requiredBytes.isOk) = true :=
    (Descriptors.stageable_iff _).2 hall
  refine ⟨_, ?_, fun w => (by simp only [build]; exact if_pos hstageable)⟩
  intro staged w
  unfold World.run
  rcases k.build attrs staged w.toSession with ⟨_ | _, s⟩ <;> rfl

/-- An update that gets past the check is a step on staged operands that leaves the pool alone. -/
theorem update_eq_withStaged {a : Adapter σ} {memory : Bindings} {runner : Runner σ}
    (hcheck : (a.follow memory.descriptors).check memory = .ok ()) (hinner : a.inner = some runner) :
    ∃ body : Bindings → World σ → Except Error Bool × World σ,
      (∀ staged w, (body staged w).2.scratch = w.scratch) ∧
      ∀ w, (a.update memory w).2.2 =
        (w.withStaged memory (a.follow memory.descriptors).conversions body).2 :=
  ⟨fun staged w => w.run (runner.update staged), fun _ _ => rfl, fun w => by
    simp only [update, hcheck, follow_inner, hinner]⟩

/-- So is an execution. -/
theorem execute_eq_withStaged {a : Adapter σ} {memory : Bindings} {runner : Runner σ}
    (hcheck : a.check memory = .ok ()) (hinner : a.inner = some runner) :
    ∃ body : Bindings → World σ → Except Error Unit × World σ,
      (∀ staged w, (body staged w).2.scratch = w.scratch) ∧
      ∀ w, a.execute memory w = w.withStaged memory a.conversions body := by
  refine ⟨_, ?_, fun w => (by simp only [execute, hcheck, hinner]; rfl)⟩
  intro staged w
  have hin := World.convertOperands_scratch memory staged
    (a.conversions.keys.filter Operand.isInput) w
  rcases hconvert : World.convertOperands memory staged
      (a.conversions.keys.filter Operand.isInput) w with ⟨_ | _, w₁⟩ <;>
    rw [hconvert] at hin
  · exact hin
  · dsimp only
    have hran := w₁.run_scratch (runner.execute staged)
    rcases hrun : w₁.run (runner.execute staged) with ⟨_ | _, w₂⟩ <;> rw [hrun] at hran
    · exact hran.trans hin
    · exact (World.convertOperands_scratch staged memory _ _).trans (hran.trans hin)

/-! ## Calls of an adapter -/

theorem balanced_build (k : Kernel α σ) (attrs : α) (descs target : Descriptors)
    (memory : Bindings) {w : World σ} (h : w.scratch.Balanced policy 0) :
    (build k attrs descs target memory w).2.scratch.Balanced policy 0 := by
  by_cases hall : (target.differingFrom descs).Allocatable
  · obtain ⟨body, hbody, hbuild⟩ := build_eq_withStaged k attrs hall memory
    rw [hbuild]
    exact World.balanced_withStaged h memory _ hbody
  · have hnot : ¬ ((target.differingFrom descs).all fun _ d => d.requiredBytes.isOk) = true :=
      mt (Descriptors.stageable_iff _).1 hall
    simp only [build, if_neg hnot]
    exact h

theorem balanced_update (a : Adapter σ) (memory : Bindings) {w : World σ}
    (h : w.scratch.Balanced policy 0) : (a.update memory w).2.2.scratch.Balanced policy 0 := by
  cases hcheck : (a.follow memory.descriptors).check memory with
  | error e =>
    simp only [update, hcheck]
    exact h
  | ok =>
    cases hinner : a.inner with
    | none =>
      simp only [update, hcheck, follow_inner, hinner]
      exact h
    | some runner =>
      obtain ⟨body, hbody, hupdate⟩ := update_eq_withStaged hcheck hinner
      rw [hupdate]
      exact World.balanced_withStaged h memory _ hbody

theorem balanced_execute (a : Adapter σ) (memory : Bindings) {w : World σ}
    (h : w.scratch.Balanced policy 0) : (a.execute memory w).2.scratch.Balanced policy 0 := by
  cases hcheck : a.check memory with
  | error e =>
    simp only [execute, hcheck]
    exact h
  | ok =>
    cases hinner : a.inner with
    | none =>
      simp only [execute, hcheck, hinner]
      exact h
    | some runner =>
      obtain ⟨body, hbody, hexecute⟩ := execute_eq_withStaged hcheck hinner
      rw [hexecute]
      exact World.balanced_withStaged h memory _ hbody

end Adapter

namespace Instance

theorem balanced_build (k : Kernel α σ) (attrs : α) (descs : Descriptors)
    (preferred : Option Descriptors) (memory : Bindings) {w : World σ}
    (h : w.scratch.Balanced policy 0) :
    (build k attrs descs preferred memory w).2.scratch.Balanced policy 0 := by
  unfold build
  cases preferred with
  | none =>
    unfold World.run
    rcases k.build attrs memory w.toSession with ⟨_ | _, s⟩ <;> exact h
  | some target =>
    have hbuild := Adapter.balanced_build k attrs descs target memory h
    dsimp only
    rcases hadapter : Adapter.build k attrs descs target memory w with ⟨_ | _, w'⟩ <;>
      rw [hadapter] at hbuild <;>
      exact hbuild

theorem balanced_update (built : Instance σ) (memory : Bindings) {w : World σ}
    (h : w.scratch.Balanced policy 0) :
    (built.update memory w).2.2.scratch.Balanced policy 0 := by
  cases built with
  | direct name runner => exact h
  | adapted a => exact a.balanced_update memory h

theorem balanced_execute (built : Instance σ) (memory : Bindings) {w : World σ}
    (h : w.scratch.Balanced policy 0) :
    (built.execute memory w).2.scratch.Balanced policy 0 := by
  cases built with
  | direct name runner => exact h
  | adapted a => exact a.balanced_execute memory h

end Instance

end KernelDispatch
