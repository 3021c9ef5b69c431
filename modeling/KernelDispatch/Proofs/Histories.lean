import KernelDispatch.Executor
import KernelDispatch.Proofs.Staging

/-
  Histories of executors. Between two calls anything may happen to memories, to the scratch pool and
  to the surroundings, so that a history also stands for one executor among several that share a
  context.
-/

namespace KernelDispatch

/-- Something that happens to an executor, or around it. -/
inductive Call (σ : Type) where
  | update (memory : Bindings)
  | execute (memory : Bindings)
  /-- Whatever else happens to memories, to the pool and to the surroundings. -/
  | elsewhere (change : World σ → World σ)

namespace Call

variable {σ : Type}

/-- The descriptors of the operands of the call, if it has any, meet the condition. -/
def Within (P : Descriptors → Prop) : Call σ → Prop
  | update memory => P memory.descriptors
  | execute memory => P memory.descriptors
  | elsewhere _ => True

/-- The operands that the call brings to an executor. -/
def operands? : Call σ → Option Bindings
  | update memory => some memory
  | execute memory => some memory
  | elsewhere _ => none

end Call

variable {α σ : Type}

namespace Adapter

/-- An adapter and its world after one call. -/
def perform (s : Adapter σ × World σ) : Call σ → Adapter σ × World σ
  | .update memory => (s.1.update memory s.2).2
  | .execute memory => (s.1, (s.1.execute memory s.2).2)
  | .elsewhere change => (s.1, change s.2)

/-- An adapter and its world after a history. -/
def after (s : Adapter σ × World σ) (calls : List (Call σ)) : Adapter σ × World σ :=
  calls.foldl perform s

end Adapter

namespace Dispatcher

/-- A dispatcher and its world after one call. -/
def perform [Operation α] (s : Dispatcher α σ × World σ) : Call σ → Dispatcher α σ × World σ
  | .update memory => (s.1.update memory s.2).2
  | .execute memory => (s.1.execute memory s.2).2
  | .elsewhere change => (s.1, change s.2)

/-- A dispatcher and its world after a history. -/
def after [Operation α] (s : Dispatcher α σ × World σ) (calls : List (Call σ)) :
    Dispatcher α σ × World σ :=
  calls.foldl perform s

/-- The answer to an update, and the index of the candidate in force after it. -/
def reply (s : Dispatcher α σ × World σ) (memory : Bindings) : Except Error Bool × Option Nat :=
  let (answer, d, _) := s.1.update memory s.2
  (answer, d.resolvedIndex)

/-- The replies to the updates of a history, those that its executions begin with among them. -/
def replies [Operation α] (s : Dispatcher α σ × World σ) :
    List (Call σ) → List (Except Error Bool × Option Nat)
  | [] => []
  | call :: calls => (call.operands?.map (reply s)).toList ++ replies (perform s call) calls

end Dispatcher

namespace Instance

/-- What has been built and its world after one call. -/
def perform (s : Instance σ × World σ) : Call σ → Instance σ × World σ
  | .update memory => (s.1.update memory s.2).2
  | .execute memory => (s.1, (s.1.execute memory s.2).2)
  | .elsewhere change => (s.1, change s.2)

/-- What has been built and its world after a history. -/
def after (s : Instance σ × World σ) (calls : List (Call σ)) : Instance σ × World σ :=
  calls.foldl perform s

/-- What updates keep holds after every history if it holds before. -/
theorem after_induction {P : Instance σ → Prop} {calls : List (Call σ)}
    (hstep : ∀ memory, Call.update memory ∈ calls → ∀ built w, P built →
      P (built.update memory w).2.1)
    {s : Instance σ × World σ} (h : P s.1) : P (after s calls).1 := by
  induction calls generalizing s with
  | nil => exact h
  | cons c calls ih =>
    refine ih (fun memory hm => hstep memory (List.mem_cons_of_mem _ hm)) (s := perform s c) ?_
    cases c with
    | update memory => exact hstep memory List.mem_cons_self s.1 s.2 h
    | execute memory => exact h
    | elsewhere change => exact h

end Instance

namespace Executor

/-- An executor and its world after one call. -/
def perform [Operation α] (s : Executor α σ × World σ) : Call σ → Executor α σ × World σ
  | .update memory => (s.1.update memory s.2).2
  | .execute memory => (s.1.execute memory s.2).2
  | .elsewhere change => (s.1, change s.2)

/-- An executor and its world after a history. -/
def after [Operation α] (s : Executor α σ × World σ) (calls : List (Call σ)) :
    Executor α σ × World σ :=
  calls.foldl perform s

/-- A single executor goes through a history as what it consists of. -/
theorem after_single [Operation α] (s : Instance σ × World σ) (calls : List (Call σ)) :
    after ((.single s.1 : Executor α σ), s.2) calls =
      (.single (Instance.after s calls).1, (Instance.after s calls).2) := by
  induction calls generalizing s with
  | nil => rfl
  | cons c calls ih =>
    have hc : perform ((.single s.1 : Executor α σ), s.2) c =
        (.single (Instance.perform s c).1, (Instance.perform s c).2) := by cases c <;> rfl
    show after (perform (.single s.1, s.2) c) calls = _
    rw [hc]
    exact ih (Instance.perform s c)

/-- A deferred executor goes through a history as its dispatcher. -/
theorem after_deferred [Operation α] (s : Dispatcher α σ × World σ) (calls : List (Call σ)) :
    after ((.deferred s.1 : Executor α σ), s.2) calls =
      (.deferred (Dispatcher.after s calls).1, (Dispatcher.after s calls).2) := by
  induction calls generalizing s with
  | nil => rfl
  | cons c calls ih =>
    have hc : perform ((.deferred s.1 : Executor α σ), s.2) c =
        (.deferred (Dispatcher.perform s c).1, (Dispatcher.perform s c).2) := by cases c <;> rfl
    show after (perform (.deferred s.1, s.2) c) calls = _
    rw [hc]
    exact ih (Dispatcher.perform s c)

end Executor

end KernelDispatch
