import KernelDispatch.Proofs.Dispatch.Conduct
import KernelDispatch.Proofs.Dispatch.Recorded
import KernelDispatch.Proofs.Dispatch.Scripts

/-
  What a dispatcher runs. Arbitrary candidates are put under observation; the notes show that an
  update runs nothing, and that a call runs one thing at most, right after that very thing consented
  to the operands (`runs_only_what_consented`).
-/

namespace KernelDispatch

namespace Dispatcher

open Recorded

variable {α σ : Type} {ks : List (Kernel α σ)} {attrs : α} {constraints : Constraints}

/-! ## Calls -/

/-- What the predicates of each candidate answer, which depends on descriptors only. -/
structure AnswersByDescriptors (ks : List (Kernel α σ)) (attrs : α) (constraints : Constraints)
    (supports accepts : Nat → Descriptors → Bool) : Prop where
  supports_eq : ∀ i k, ks[i]? = some k → ∀ ds s,
    (k.supports attrs ds constraints s).1 = supports i ds
  accepts_eq : ∀ i k, ks[i]? = some k → ∀ memory s,
    (k.acceptsShapes memory s).1 = accepts i memory.descriptors

/-- A candidate supports the operands and accepts their shapes, if that depends on descriptors. -/
def Suits (ks : List (Kernel α σ)) (attrs : α) (constraints : Constraints) (i : Nat)
    (ds : Descriptors) : Prop :=
  ∀ supports accepts, AnswersByDescriptors ks attrs constraints supports accepts →
    supports i ds = true ∧ accepts i ds = true

theorem recorded_conduct (ks : List (Kernel α σ)) (attrs : α) (constraints : Constraints) :
    Conduct (kernels ks) attrs constraints NoRuns Bears where
  refl w := .of_eq rfl
  trans := NoRuns.trans
  supports k hk ds w := by
    obtain ⟨i, hi⟩ := List.getElem?_of_mem hk
    obtain ⟨k', -, rfl⟩ := kernels_getElem? hi
    exact .of_eq rfl
  acceptsShapes k hk memory w := by
    obtain ⟨i, hi⟩ := List.getElem?_of_mem hk
    obtain ⟨k', -, rfl⟩ := kernels_getElem? hi
    exact .of_eq rfl
  preferred k hk ds w := by
    obtain ⟨i, hi⟩ := List.getElem?_of_mem hk
    obtain ⟨k', -, rfl⟩ := kernels_getElem? hi
    exact .of_eq rfl
  build i k hk preferred memory w r w' h := by
    obtain ⟨k', -, rfl⟩ := kernels_getElem? hk
    exact (build_bears h).imp_left .of_eq
  update i built hb memory w := by
    refine ⟨update_noRuns hb memory w, fun r hr => hb r ?_⟩
    rw [← hr, Instance.runner?_update]

theorem recorded_vets (ks : List (Kernel α σ)) (attrs : α) (constraints : Constraints) :
    Vets (kernels ks) attrs constraints (Suits ks attrs constraints) := by
  intro i k hk memory s s' hsupports haccepts supports accepts hanswers
  obtain ⟨k', hk', rfl⟩ := kernels_getElem? hk
  refine ⟨?_, ?_⟩
  · rw [← hanswers.supports_eq i k' hk' memory.descriptors (view s)]
    exact hsupports
  · rw [← hanswers.accepts_eq i k' hk' memory (view s')]
    exact haccepts

/-- A call on `memory` runs what is in `slot`: it is the candidate in force that runs, once and
    last of all, on the operands that it consented to in the step before. -/
structure RunsConsented [Operation α] (s : Dispatcher α (Recorded σ) × World (Recorded σ))
    (memory : Bindings) (i : Nat) (slot : Slot (Recorded σ)) : Prop where
  resolved : (s.1.update memory s.2).2.1.resolved = some (memory.descriptors, i)
  slot_eq : (s.1.update memory s.2).2.1.slot? i = some slot
  /-- It was asked last in the update that the call begins with, and has not changed since. -/
  consents : ∃ (built : Instance (Recorded σ)) (w : World (Recorded σ)), NoRuns s.2 w ∧
    built.update memory w = (.ok true, slot.built, (s.1.update memory s.2).2.2)
  execute_eq : s.1.execute memory s.2 =
    ((slot.built.execute memory (s.1.update memory s.2).2.2).1, (s.1.update memory s.2).2.1,
      (slot.built.execute memory (s.1.update memory s.2).2.2).2)
  notes_eq : ∃ n r earlier, slot.built.runner? = some (runner ⟨i, n⟩ r) ∧
    (s.1.execute memory s.2).2.2.ambient.notes =
      .executed ⟨i, n⟩ (slot.built.handed memory.descriptors) ::
      .updated ⟨i, n⟩ (slot.built.handed memory.descriptors) (.ok true) ::
        (earlier ++ s.2.ambient.notes) ∧
    ∀ tag ds, Note.executed tag ds ∉ earlier

theorem Tended.runsConsented [Operation α] {s : Dispatcher α (Recorded σ) × World (Recorded σ)}
    {Q : Nat → Descriptors → Prop}
    (h : Tended (kernels ks) attrs constraints Bears Q s.1)
    (hv : Vets (kernels ks) attrs constraints Q) {memory : Bindings}
    (htrue : (s.1.update memory s.2).1 = .ok true) :
    ∃ i slot, RunsConsented s memory i slot ∧ Q i memory.descriptors := by
  rcases h.execute_eq (recorded_conduct ks attrs constraints) hv memory s.2 with
    ⟨hfalse, -⟩ | ⟨i, slot, -, ht, hexec⟩
  · exact absurd htrue hfalse
  · obtain ⟨built, w, hw, hbears, hanswer⟩ := ht.answered
    obtain ⟨n, r, hrunner, hupdated⟩ := note_of_update hbears hanswer
    obtain ⟨earlier, hearlier, hnone⟩ := hw
    have hexecuted := note_of_execute hanswer hrunner
    refine ⟨i, slot, ⟨ht.resolved, ht.slot_eq, ⟨built, w, ⟨earlier, hearlier, hnone⟩, hanswer⟩,
      hexec, n, r, earlier, hrunner, ?_, hnone⟩, ht.vetted⟩
    rw [hexec]
    show (slot.built.execute memory (s.1.update memory s.2).2.2).2.ambient.notes = _
    rw [hexecuted, hupdated, hearlier]

/-- A dispatcher runs nothing but the candidate that took the operands in the same call. In every
    state that it can get into, the candidate in force is one of the candidates and has been built;
    an update runs nothing, and a call whose update does not answer that a candidate takes the
    operands fails with nothing run; any other call runs the candidate in force, once and right
    after its consent, and the operands passed its predicates. -/
theorem runs_only_what_consented [Operation α] (ks : List (Kernel α σ)) (attrs : α)
    (constraints : Constraints) (context : Context) (w : World (Recorded σ))
    (calls : List (Call (Recorded σ))) (memory : Bindings) :
    let s := after (ofCandidates (kernels ks) attrs constraints context, w) calls
    let updated := s.1.update memory s.2
    let executed := s.1.execute memory s.2
    (∀ ds i, s.1.resolved = some (ds, i) → i < ks.length ∧ ∃ slot, s.1.slot? i = some slot) ∧
      NoRuns s.2 updated.2.2 ∧
      (updated.1 ≠ .ok true → (∃ e, executed.1 = .error e) ∧ executed.2 = updated.2) ∧
      (updated.1 = .ok true → ∃ i slot, RunsConsented s memory i slot ∧
        Suits ks attrs constraints i memory.descriptors) := by
  intro s updated executed
  have hc := recorded_conduct ks attrs constraints
  have hv := recorded_vets ks attrs constraints
  have htended : Tended (kernels ks) attrs constraints Bears (Suits ks attrs constraints) s.1 :=
    (tended_ofCandidates (kernels ks) attrs constraints _ _ context).after hc hv calls
  refine ⟨fun ds i hres => ?_, (htended.update hc hv memory s.2).related, fun hfalse => ?_,
    fun htrue => htended.runsConsented hv htrue⟩
  · obtain ⟨-, slot, hslot⟩ := htended.inForce ds i hres
    have hlt := htended.lt_of_slot? hslot
    rw [kernels, List.length_mapIdx] at hlt
    exact ⟨hlt, slot, hslot⟩
  · rcases htended.execute_eq hc hv memory s.2 with ⟨-, hfails⟩ | ⟨i, slot, htrue, -⟩
    · exact hfails
    · exact absurd htrue hfalse

/-- Two candidates, the first of which refuses when it is offered operands for the first time. -/
def reluctantPair : List (Kernel Scaling Journal) :=
  [({ name := "reluctant", updates := [.no] } : Script).kernel .single,
    ({ name := "spare" } : Script).kernel .single]

/-- The first of the two candidates refuses, so the second one runs. -/
theorem spare_runs_after_refusal :
    let s := after (ofCandidates (kernels reluctantPair) ⟨.zero⟩ ∅ (.ofSettings default),
      { store := ⟨#[Bytes.zeros 16, Bytes.zeros 16]⟩, ambient := ⟨[], 0, []⟩, scratch := {} }) []
    let memory := Script.matrixPair 0 1
    (s.1.update memory s.2).1 = .ok true ∧
      (∃ slot, RunsConsented s memory 1 slot ∧
        Suits reluctantPair ⟨.zero⟩ ∅ 1 memory.descriptors) ∧
      (s.1.execute memory s.2).2.2.ambient.notes =
        [.executed ⟨1, 1⟩ memory.descriptors, .updated ⟨1, 1⟩ memory.descriptors (.ok true),
          .updated ⟨0, 0⟩ memory.descriptors (.ok false)] := by
  intro s memory
  have htrue : (s.1.update memory s.2).1 = .ok true := rfl
  obtain ⟨i, slot, hruns, hsuits⟩ := (runs_only_what_consented reluctantPair ⟨.zero⟩ ∅
    (.ofSettings default) _ [] memory).2.2.2 htrue
  have hindex : some (memory.descriptors, i) = some (memory.descriptors, 1) :=
    hruns.resolved.symm.trans rfl
  cases hindex
  exact ⟨htrue, ⟨slot, hruns, hsuits⟩, rfl⟩

end Dispatcher

end KernelDispatch
