import KernelDispatch.Proofs.Adapter.Calls

/-
  Failures that callers are told of. Only the run of a kernel can end the program: what an adapter
  does around it is reported when it goes wrong, and so is the building of a kernel
  (`Instance.build_reports`) and every update of what has been built, if its runner reports updates
  (`Instance.update_reports`).
-/

namespace KernelDispatch

/-- Whatever goes wrong, callers are told of it. -/
def Reports {ε α : Type} (isReported : ε → Bool) (x : Except ε α) : Prop :=
  ∀ e, x = .error e → isReported e = true

namespace Reports

variable {ε ε' α β : Type} {isReported : ε → Bool} {x : Except ε α} {f : α → Except ε β}

theorem ok (a : α) : Reports isReported (.ok a) := fun _ h => by cases h

theorem error {e : ε} (h : isReported e = true) : Reports (α := α) isReported (.error e) :=
  fun _ h' => by cases h'; exact h

theorem bind (h : Reports isReported x) (h' : ∀ a, Reports isReported (f a)) :
    Reports isReported (x >>= f) := by
  cases x with
  | error e => exact .error (h e rfl)
  | ok a => exact h' a

theorem mapError {y : Except ε' α} {g : ε' → ε} (h : ∀ e, isReported (g e) = true) :
    Reports isReported (y.mapError g) := by
  cases y with
  | error e => exact .error (h e)
  | ok a => exact .ok a

end Reports

variable {σ β : Type}

namespace World

theorem withStaged_reports (w : World σ) (memory : Bindings) (wanted : Descriptors)
    {body : Bindings → World σ → Except Error β × World σ}
    (hbody : ∀ staged w, Reports Error.isReported (body staged w).1) :
    Reports Error.isReported (w.withStaged memory wanted body).1 := by
  unfold withStaged
  split
  · exact .error rfl
  · exact hbody _ _

theorem convertOperands_reports (source target : Bindings) (ps : List Operand) (w : World σ) :
    Reports Error.isReported (convertOperands source target ps w).1 := by
  induction ps generalizing w with
  | nil => exact .ok ()
  | cons p ps ih =>
    unfold convertOperands
    split
    · split
      · exact ih _
      · exact .error rfl
    · exact .error rfl
    · exact .error rfl

end World

/-- Callers are told of every update that fails. -/
def Runner.ReportsUpdates (r : Runner σ) : Prop := ∀ b s, Reports Error.isReported (r.update b s).1

namespace Adapter

theorem checkFrom_reports (memory : Bindings) (es : List (Operand × Descriptor)) :
    Reports Error.isReported (checkFrom memory es) := by
  induction es with
  | nil => exact .ok ()
  | cons e es ih =>
    unfold checkFrom
    split
    · exact .error rfl
    · split
      · exact .error rfl
      · exact ih

variable {a : Adapter σ} {memory : Bindings} {w : World σ}

theorem handOver_reports {e : Error} {w' : World σ} (h : a.handOver memory w = .error (e, w')) :
    e.isReported = true := by
  unfold handOver at h
  split at h
  · rename_i hcheck
    cases h
    exact checkFrom_reports _ _ _ hcheck
  · split at h
    · cases h
      rfl
    · split at h
      · cases h
        rfl
      · split at h
        · rename_i hconvert
          cases h
          exact World.convertOperands_reports _ _ _ _ _ (congrArg Prod.fst hconvert)
        · cases h

theorem update_reports (h : ∀ r, a.inner = some r → r.ReportsUpdates) :
    Reports Error.isReported (a.update memory w).1 := by
  unfold update
  dsimp only
  split
  · rename_i r _ hinner
    rw [follow_inner] at hinner
    exact w.withStaged_reports _ _ fun staged w => h r hinner staged w.toSession
  · exact .ok false

end Adapter

namespace Instance

variable {α : Type} {memory : Bindings} {w : World σ}

theorem build_reports (k : Kernel α σ) (attrs : α) (ds : Descriptors)
    (preferred : Option Descriptors) (memory : Bindings) (w : World σ) :
    Reports Error.isReported (build k attrs ds preferred memory w).1 := by
  have hadapter : ∀ target,
      Reports Error.isReported (Adapter.build k attrs ds target memory w).1 := by
    intro target
    unfold Adapter.build
    dsimp only
    split
    · refine w.withStaged_reports _ _ fun staged w => ?_
      split
      · exact .ok _
      · exact .error rfl
    · exact .ok _
  unfold build
  split
  · rename_i target
    split
    · exact .ok _
    · rename_i hbuild
      exact .error (hadapter target _ (congrArg Prod.fst hbuild))
  · split
    · exact .ok _
    · exact .error rfl

theorem update_reports {built : Instance σ}
    (h : ∀ r, built.runner? = some r → r.ReportsUpdates) :
    Reports Error.isReported (built.update memory w).1 := by
  cases built with
  | direct name r => exact h r rfl memory w.toSession
  | adapted a => exact Adapter.update_reports h

/-- A call that gets nowhere fails, and its caller is told why. -/
theorem execute_error_of_not_reaches {built : Instance σ} (h : ¬ built.Reaches memory)
    (w : World σ) : ∃ e, (built.execute memory w).1 = .error e ∧ e.isReported = true := by
  cases built with
  | direct name r => exact absurd trivial h
  | adapted a =>
    have hexec := a.execute_eq memory w
    cases hh : a.handOver memory w with
    | error found =>
      rw [hh] at hexec
      exact ⟨found.1, congrArg Prod.fst hexec, Adapter.handOver_reports hh⟩
    | ok o => exact absurd (Adapter.reaches_of_handOver hh) h

end Instance

end KernelDispatch
