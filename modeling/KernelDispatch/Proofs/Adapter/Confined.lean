import KernelDispatch.Proofs.Adapter.Run
import KernelDispatch.Proofs.Memory.Conversion

/-
  Kernels that reach no memory but their operands. What such a kernel does to its operands depends
  on their descriptors and bytes and on the surroundings alone, not on where the bytes are
  (`Runner.Confined`). With such a kernel every call of an adapter preserves what is held
  (`update_preserves`, `execute_preserves`), so that memories that are owned stay owned along every
  history (`owns_after`).
-/

namespace KernelDispatch

/-- No two operands share a memory. -/
def Bindings.Distinct (b : Bindings) : Prop :=
  ∀ p q m m', b.get? p = some m → b.get? q = some m' → m.cell = m'.cell → p = q

variable {σ : Type}

/-- The operands have the same descriptors and the same bytes, in the same surroundings. -/
structure Session.Alike (b : Bindings) (s : Session σ) (b' : Bindings) (s' : Session σ) : Prop where
  descriptors : b.descriptors = b'.descriptors
  contents : ∀ p m m', b.get? p = some m → b'.get? p = some m' →
    s.store.contents m = s'.store.contents m'
  ambient : s.ambient = s'.ambient

/-- A step changes the bytes of its operands at most, and no sizes. -/
structure Confined {β : Type} (step : Bindings → Session σ → β × Session σ) : Prop where
  exist : ∀ b s, s.store.cells.size ≤ (step b s).2.store.cells.size
  size : ∀ b s, ∀ c < s.store.cells.size,
    ((step b s).2.store.bytes c).size = (s.store.bytes c).size
  frame : ∀ b s, ∀ c < s.store.cells.size, (∀ p m, b.get? p = some m → m.cell ≠ c) →
    (step b s).2.store.bytes c = s.store.bytes c

/-- The runner reaches its operands and the surroundings only, and a run depends on nothing else. -/
structure Runner.Confined (r : Runner σ) : Prop where
  update : KernelDispatch.Confined r.update
  execute : KernelDispatch.Confined r.execute
  alike : ∀ b b' s s', b.Distinct → b'.Distinct → Session.Alike b s b' s' →
    (r.execute b s).1 = (r.execute b' s').1 ∧
      Session.Alike b (r.execute b s).2 b' (r.execute b' s').2

namespace World

/-- The memories exist in the sizes of their descriptors, and the scratch pool has none of them. -/
structure Owns (w : World σ) (memory : Bindings) : Prop where
  sound : w.PoolSound
  held : ∀ p m, memory.get? p = some m → w.Held m.cell
  fits : ∀ p m, memory.get? p = some m → w.store.Fits m

/-- While nothing is in the pool, it is enough that the memories exist. -/
theorem Owns.of_pool_eq_nil {w : World σ} (hpool : w.scratch.pool = []) {memory : Bindings}
    (h : ∀ p m, memory.get? p = some m → m.cell < w.store.cells.size ∧ w.store.Fits m) :
    w.Owns memory := by
  have hnone : ∀ b, b ∉ w.scratch.pool := fun b hb => by
    rw [hpool] at hb
    cases hb
  refine ⟨⟨fun b hb => absurd hb (hnone b), ?_⟩,
    fun p m hm => ⟨(h p m hm).1, fun b hb => absurd hb (hnone b)⟩, fun p m hm => (h p m hm).2⟩
  rw [hpool]
  exact List.nodup_nil

theorem Preserves.owns {w w' : World σ} {memory : Bindings} (h : w.Preserves w')
    (ho : w.Owns memory) : w'.Owns memory := by
  refine ⟨h.sound ho.sound, fun p m hm => h.held _ (ho.held p m hm), fun p m hm => ?_⟩
  have hsize := h.size _ (ho.held p m hm)
  unfold Store.Fits Store.contents
  rw [hsize]
  exact ho.fits p m hm

theorem run_preserves {β : Type} {step : Bindings → Session σ → β × Session σ}
    (h : Confined step) (b : Bindings) (w : World σ) : w.Preserves (w.run (step b)).2 := by
  refine ⟨fun c hc => ⟨Nat.lt_of_lt_of_le hc.1 (h.exist b _), hc.2⟩,
    fun c hc => h.size b _ c hc.1, fun hs => ⟨fun b' hb' => ?_, hs.nodup⟩⟩
  exact Nat.lt_of_lt_of_le (hs.exist b' hb') (h.exist b _)

theorem withStaged_preserves {β : Type} {w : World σ} (hs : w.PoolSound) (memory : Bindings)
    (wanted : Descriptors) {body : Bindings → World σ → Except Error β × World σ}
    (hbody : ∀ staged (w : World σ), w.Preserves (body staged w).2) :
    w.Preserves (w.withStaged memory wanted body).2 := by
  obtain ⟨result, loans, w₁, hstage, hborrows⟩ :=
    stageFrom_borrows memory wanted.entries memory [] hs
  unfold withStaged
  rw [hstage]
  cases result with
  | error e => exact hborrows.preserves (.refl w₁)
  | ok staged => exact hborrows.preserves (hbody staged w₁)

end World

namespace Adapter

variable {a : Adapter σ}

/-- An update preserves what is held. -/
theorem update_preserves (hconf : ∀ r, a.inner = some r → Confined r.update) (memory : Bindings)
    {w : World σ} (hs : w.PoolSound) : w.Preserves (a.update memory w).2.2 := by
  unfold update
  dsimp only
  split
  · rename_i runner _ hinner
    rw [follow_inner] at hinner
    exact World.withStaged_preserves hs memory _
      fun staged w => World.run_preserves (hconf runner hinner) staged w
  · exact .refl w

/-- A call preserves what is held. -/
theorem execute_preserves (hconf : ∀ r, a.inner = some r → Confined r.execute) (memory : Bindings)
    {w : World σ} (hs : w.PoolSound) : w.Preserves (a.execute memory w).2 := by
  unfold execute
  split
  · exact .refl w
  · split
    · exact .refl w
    · rename_i runner hinner
      refine World.withStaged_preserves hs memory _ fun staged w => ?_
      have hin := World.convertOperands_preserves memory staged
        (a.conversions.keys.filter Operand.isInput) w
      split
      · rename_i heq
        rw [heq] at hin
        exact hin
      · rename_i w₁ heq
        rw [heq] at hin
        have hrun := World.run_preserves (hconf runner hinner) staged w₁
        split
        · rename_i heq
          rw [heq] at hrun
          exact hin.trans hrun
        · rename_i w₂ heq
          rw [heq] at hrun
          exact (hin.trans hrun).trans (World.convertOperands_preserves _ _ _ w₂)

/-- Along a history, memories that are owned stay owned, unless they are taken away elsewhere. -/
theorem owns_after {s : Adapter σ × World σ} (hconf : ∀ r, s.1.inner = some r → r.Confined)
    {calls : List (Call σ)}
    (hcalls : ∀ change, Call.elsewhere change ∈ calls → ∀ w : World σ, w.Preserves (change w))
    {memory : Bindings} (h : s.2.Owns memory) : (after s calls).2.Owns memory := by
  induction calls generalizing s with
  | nil => exact h
  | cons c calls ih =>
    have hrest : ∀ change, Call.elsewhere change ∈ calls → ∀ w : World σ, w.Preserves (change w) :=
      fun change hc => hcalls change (List.mem_cons_of_mem _ hc)
    refine ih (s := perform s c) ?_ hrest ?_
    · cases c with
      | update operands =>
        show ∀ r, (s.1.update operands s.2).2.1.inner = some r → _
        rw [update_adapter, follow_inner]
        exact hconf
      | execute operands => exact hconf
      | elsewhere change => exact hconf
    · cases c with
      | update operands =>
        exact (update_preserves (fun r hr => (hconf r hr).update) operands h.sound).owns h
      | execute operands =>
        exact (execute_preserves (fun r hr => (hconf r hr).execute) operands h.sound).owns h
      | elsewhere change => exact (hcalls change List.mem_cons_self s.2).owns h

end Adapter

end KernelDispatch
