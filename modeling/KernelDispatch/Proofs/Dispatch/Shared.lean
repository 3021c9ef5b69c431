import KernelDispatch.Factory
import KernelDispatch.Proofs.Dispatch.Conduct
import KernelDispatch.Proofs.Memory.Accounts

/-
  Executors that share a context. A system consists of a world and of any number of executors, of
  any operations, that were made in it and run in it. Every call returns what it borrows, whatever
  its outcome, so between calls the accounts of the pool are those of a pool with no loan out
  (`System.Sound.after`): no buffer is ever lost (`System.pool_accounts`).
-/

namespace KernelDispatch

variable {α σ : Type} {policy : ReusePolicy}

/-! ## Calls of one executor -/

namespace Dispatcher

/-- What has been built of the candidates, and what is remembered of them, may be anything. -/
def Coherent (d : Dispatcher α σ) : Prop :=
  Tended d.candidates d.attrs d.constraints (fun _ _ => True) (fun _ _ => True) d

theorem coherent_ofCandidates (ks : List (Kernel α σ)) (attrs : α) (constraints : Constraints)
    (context : Context) : (ofCandidates ks attrs constraints context).Coherent :=
  tended_ofCandidates ks attrs constraints _ _ context

/-- Whatever the candidates do, they leave the accounts in order. -/
theorem conduct_balanced (ks : List (Kernel α σ)) (attrs : α) (constraints : Constraints)
    (policy : ReusePolicy) :
    Conduct ks attrs constraints
      (fun w w' => w.scratch.Balanced policy 0 → w'.scratch.Balanced policy 0)
      (fun _ _ => True) where
  refl := fun _ h => h
  trans := fun h h' hw => h' (h hw)
  supports := fun _ _ _ _ h => h
  acceptsShapes := fun _ _ _ _ h => h
  preferred := fun _ _ _ _ h => h
  build := by
    rintro i k - preferred memory w r w' hbuild
    refine ⟨fun h => ?_, fun _ _ => trivial⟩
    have hbalanced := Instance.balanced_build k attrs memory.descriptors preferred memory h
    rw [hbuild] at hbalanced
    exact hbalanced
  update := fun _ built _ memory _ => ⟨built.balanced_update memory, trivial⟩

theorem Coherent.update {d : Dispatcher α σ} (h : d.Coherent) (memory : Bindings) (w : World σ) :
    (d.update memory w).2.1.Coherent ∧ (w.scratch.Balanced policy 0 →
      (d.update memory w).2.2.scratch.Balanced policy 0) := by
  have hconcludes := Tended.update h (conduct_balanced _ _ _ policy)
    (fun _ _ _ _ _ _ _ _ => trivial) memory w
  refine ⟨?_, hconcludes.related⟩
  have htended := hconcludes.tended
  unfold Coherent
  rw [htended.candidates_eq, htended.attrs_eq, htended.constraints_eq]
  exact htended

theorem Coherent.execute [Operation α] {d : Dispatcher α σ} (h : d.Coherent) (memory : Bindings)
    (w : World σ) :
    (d.execute memory w).2.1.Coherent ∧ (w.scratch.Balanced policy 0 →
      (d.execute memory w).2.2.scratch.Balanced policy 0) := by
  obtain ⟨hcoherent, hupdate⟩ : (d.update memory w).2.1.Coherent ∧
      (w.scratch.Balanced policy 0 → (d.update memory w).2.2.scratch.Balanced policy 0) :=
    Coherent.update h memory w
  refine ⟨by rw [execute_dispatcher]; exact hcoherent, fun hw => ?_⟩
  rcases Tended.execute_eq h (conduct_balanced _ _ _ policy) (fun _ _ _ _ _ _ _ _ => trivial)
    memory w with ⟨-, -, heq⟩ | ⟨i, slot, -, -, heq⟩
  · rw [heq]
    exact hupdate hw
  · rw [heq]
    exact slot.built.balanced_execute memory (hupdate hw)

end Dispatcher

namespace Executor

/-- An executor is coherent if its dispatcher is, in case it has one. -/
def Coherent : Executor α σ → Prop
  | single _ => True
  | deferred d => d.Coherent

theorem Coherent.update {e : Executor α σ} (h : e.Coherent) (memory : Bindings) {w : World σ}
    (hw : w.scratch.Balanced policy 0) :
    (e.update memory w).2.1.Coherent ∧ (e.update memory w).2.2.scratch.Balanced policy 0 := by
  cases e with
  | single built => exact ⟨trivial, built.balanced_update memory hw⟩
  | deferred d =>
    obtain ⟨hd, hbalanced⟩ := Dispatcher.Coherent.update h memory w
    exact ⟨hd, hbalanced hw⟩

theorem Coherent.execute [Operation α] {e : Executor α σ} (h : e.Coherent) (memory : Bindings)
    {w : World σ} (hw : w.scratch.Balanced policy 0) :
    (e.execute memory w).2.1.Coherent ∧ (e.execute memory w).2.2.scratch.Balanced policy 0 := by
  cases e with
  | single built => exact ⟨trivial, built.balanced_execute memory hw⟩
  | deferred d =>
    obtain ⟨hd, hbalanced⟩ := Dispatcher.Coherent.execute h memory w
    exact ⟨hd, hbalanced hw⟩

end Executor

namespace Factory

theorem balanced_make (f : Factory α σ) (memory : Bindings) {w : World σ}
    (hw : w.scratch.Balanced policy 0) :
    (f.make memory w).2.scratch.Balanced policy 0 ∧
      ∀ e, (f.make memory w).1 = .ok e → e.Coherent := by
  unfold make
  split
  · rename_i k _
    have hw₁ : (w.run (k.preferred f.attrs memory.descriptors)).2.scratch.Balanced policy 0 := hw
    dsimp only
    rcases hasked : w.run (k.preferred f.attrs memory.descriptors) with ⟨preferred, w₁⟩
    rw [hasked] at hw₁
    have hbuild := Instance.balanced_build k f.attrs memory.descriptors preferred memory hw₁
    dsimp only
    rcases hbuilt : Instance.build k f.attrs memory.descriptors preferred memory w₁ with
      ⟨_ | built, w₂⟩ <;> rw [hbuilt] at hbuild
    · exact ⟨hbuild, nofun⟩
    · refine ⟨hbuild, ?_⟩
      rintro e ⟨⟩
      trivial
  · refine ⟨hw, ?_⟩
    rintro e ⟨⟩
    exact Dispatcher.coherent_ofCandidates _ _ _ _

end Factory

/-! ## Systems -/

/-- An executor of some operation. -/
structure Member (σ : Type) : Type 1 where
  Attributes : Type
  operation : Operation Attributes
  executor : Executor Attributes σ

/-- A world, and the executors that share it. -/
structure System (σ : Type) : Type 1 where
  world : World σ
  members : List (Member σ)

namespace System

/-- Something that happens in a system while no call is in progress. -/
inductive Step (σ : Type) : Type 1 where
  /-- A factory makes an executor. -/
  | make {α : Type} (operation : Operation α) (factory : Factory α σ) (memory : Bindings)
  /-- A kernel is built behind an adapter. -/
  | adapt {α : Type} (operation : Operation α) (kernel : Kernel α σ) (attrs : α)
    (descs target : Descriptors) (memory : Bindings)
  | update (i : Nat) (memory : Bindings)
  | execute (i : Nat) (memory : Bindings)
  | drop (i : Nat)
  /-- Whatever else happens to memories and to the surroundings. -/
  | elsewhere (change : Session σ → Session σ)

/-- A system in which a context has just been made. -/
def start (c : Context) (session : Session σ) : System σ :=
  ⟨{ session with scratch := c.scratch }, []⟩

/-- What has been made joins the members; if it could not be made, what that did stays done. -/
def join (s : System σ) (operation : Operation α) :
    Except Error (Executor α σ) × World σ → System σ
  | (.ok executor, world) => ⟨world, s.members ++ [⟨α, operation, executor⟩]⟩
  | (.error _, world) => { s with world }

/-- A member and the world are as a call has left them. -/
def replace (s : System σ) (i : Nat) (m : Member σ)
    (r : Executor m.Attributes σ × World σ) : System σ :=
  ⟨r.2, s.members.set i { m with executor := r.1 }⟩

/-- A system after one step. -/
def perform (s : System σ) : Step σ → System σ
  | .make operation factory memory => s.join operation (factory.make memory s.world)
  | .adapt operation kernel attrs descs target memory =>
    match Adapter.build kernel attrs descs target memory s.world with
    | (.ok adapter, world) => s.join operation (.ok (.single (.adapted adapter)), world)
    | (.error e, world) => s.join operation (.error e, world)
  | .update i memory =>
    match s.members[i]? with
    | none => s
    | some m => s.replace i m (m.executor.update memory s.world).2
  | .execute i memory =>
    match s.members[i]? with
    | none => s
    | some m =>
      let _ := m.operation
      s.replace i m (m.executor.execute memory s.world).2
  | .drop i => { s with members := s.members.eraseIdx i }
  | .elsewhere change => { s with world := { s.world with toSession := change s.world.toSession } }

/-- A system after a run. -/
def after (s : System σ) (steps : List (Step σ)) : System σ := steps.foldl perform s

/-- The accounts are in order with no loan out, and the executors are coherent. -/
structure Sound (policy : ReusePolicy) (s : System σ) : Prop where
  balanced : s.world.scratch.Balanced policy 0
  coherent : ∀ m ∈ s.members, m.executor.Coherent

theorem sound_start (c : Context) (session : Session σ) : (start c session).Sound c.reuse :=
  ⟨Scratch.balanced_scratch c, nofun⟩

theorem Sound.join {s : System σ} (h : s.Sound policy) (operation : Operation α)
    {r : Except Error (Executor α σ) × World σ} (hw : r.2.scratch.Balanced policy 0)
    (hr : ∀ e, r.1 = .ok e → e.Coherent) : (s.join operation r).Sound policy := by
  rcases r with ⟨_ | e, w⟩
  · exact ⟨hw, h.coherent⟩
  · refine ⟨hw, fun m hm => ?_⟩
    rcases List.mem_append.1 hm with hm | hm
    · exact h.coherent m hm
    · rw [List.mem_singleton.1 hm]
      exact hr e rfl

theorem Sound.replace {s : System σ} (h : s.Sound policy) (i : Nat) (m : Member σ)
    {r : Executor m.Attributes σ × World σ} (hr : r.1.Coherent ∧ r.2.scratch.Balanced policy 0) :
    (s.replace i m r).Sound policy := by
  refine ⟨hr.2, fun m' hm' => ?_⟩
  rcases List.mem_or_eq_of_mem_set hm' with hm' | rfl
  · exact h.coherent m' hm'
  · exact hr.1

/-- Every step leaves the accounts in order. -/
theorem Sound.perform {s : System σ} (h : s.Sound policy) (step : Step σ) :
    (s.perform step).Sound policy := by
  cases step with
  | make operation factory memory =>
    obtain ⟨hw, he⟩ := factory.balanced_make memory h.balanced
    exact h.join operation hw he
  | adapt operation kernel attrs descs target memory =>
    have hw := Adapter.balanced_build kernel attrs descs target memory h.balanced
    dsimp only [System.perform]
    rcases hbuild : Adapter.build kernel attrs descs target memory s.world with ⟨_ | a, w⟩ <;>
      rw [hbuild] at hw
    · exact ⟨hw, h.coherent⟩
    · refine h.join operation hw ?_
      rintro e ⟨⟩
      trivial
  | update i memory =>
    dsimp only [System.perform]
    cases hm : s.members[i]? with
    | none => exact h
    | some m =>
      have hcoherent := h.coherent m (List.mem_of_getElem? hm)
      exact h.replace i m (hcoherent.update memory h.balanced)
  | execute i memory =>
    dsimp only [System.perform]
    cases hm : s.members[i]? with
    | none => exact h
    | some m =>
      let _ := m.operation
      have hcoherent := h.coherent m (List.mem_of_getElem? hm)
      exact h.replace i m (hcoherent.execute memory h.balanced)
  | drop i => exact ⟨h.balanced, fun m hm => h.coherent m (List.mem_of_mem_eraseIdx hm)⟩
  | elsewhere change => exact ⟨h.balanced, h.coherent⟩

theorem Sound.after {s : System σ} (h : s.Sound policy) (steps : List (Step σ)) :
    (s.after steps).Sound policy := by
  induction steps generalizing s with
  | nil => exact h
  | cons step steps ih => exact ih (h.perform step)

/-- No buffer is ever lost: after every run of a system a pool that recycles holds every buffer that
    was allocated, up to its limit, and a pool that releases has kept none and used none again. -/
theorem pool_accounts (c : Context) (session : Session σ) (steps : List (Step σ)) :
    let scratch := ((start c session).after steps).world.scratch
    match c.reuse with
    | .recycle => scratch.pool.length = min Scratch.poolLimit scratch.allocations
    | .release => scratch.pool.length = 0 ∧ scratch.reuses = 0 := by
  have hbalanced := ((sound_start c session).after steps).balanced
  dsimp only
  cases hpolicy : c.reuse with
  | recycle =>
    rw [hpolicy] at hbalanced
    exact hbalanced.length_pool
  | release =>
    obtain ⟨hpool, hreuses⟩ := hbalanced.released hpolicy
    exact ⟨by rw [hpool, List.length_nil], hreuses⟩

end System

end KernelDispatch
