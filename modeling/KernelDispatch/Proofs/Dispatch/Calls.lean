import KernelDispatch.Proofs.Adapter.Reports
import KernelDispatch.Proofs.Dispatch.Built
import KernelDispatch.Proofs.Dispatch.Quiet

/-
  Calls of executors made of kernels that change nothing until they are run. A call fails before
  anything runs, and its caller is told of it, or it is a run of one runner; an executor with several
  candidates runs only what consented before (`Executor.MadeOf.execute_cases`). If an update says
  that the operands can be run, the call that follows is a run of the runner that consented
  (`Executor.MadeOf.execute_of_update`).
-/

namespace KernelDispatch

variable {α σ : Type}

/-- The runner answers updates from descriptors. -/
def Runner.Steady (r : Runner σ) : Prop := ∃ takes, r.Answers takes

namespace Instance

/-- Whatever operands of the descriptors that were consented to the runner meets, it consents. -/
theorem consent_of_update {built built' : Instance σ} (h : built.Has Runner.Steady)
    {memory : Bindings} {w w' : World σ} (hupdate : built.update memory w = (.ok true, built', w'))
    {r : Runner σ} (hr : built'.runner? = some r) {operands : Bindings}
    (hds : operands.descriptors = built'.handed memory.descriptors) (s : Session σ) :
    (r.update operands s).1 = .ok true := by
  cases built with
  | direct name r' =>
    obtain ⟨takes, htakes⟩ := h r' rfl
    simp only [update, World.run, Prod.mk.injEq] at hupdate
    obtain ⟨hanswer, rfl, -⟩ := hupdate
    cases hr
    rw [htakes, hds, ← hanswer, htakes]
    rfl
  | adapted a =>
    simp only [update, Prod.mk.injEq] at hupdate
    obtain ⟨hanswer, rfl, -⟩ := hupdate
    have hinner : a.inner = some r := by
      rw [← hr, runner?, Adapter.update_adapter, Adapter.follow_inner]
    obtain ⟨takes, htakes⟩ := h r hinner
    have hreach := Adapter.reaches_of_update hanswer
    rw [Adapter.update_fst_of_reaches hreach (fun r' hr' => by
      rw [hinner, Option.some.injEq] at hr'
      exact hr' ▸ htakes) w] at hanswer
    rw [htakes, hds, handed, Adapter.update_adapter]
    exact hanswer

/-- What consented consents to the same operands again. -/
theorem update_again {built built' : Instance σ} (h : built.Has Runner.Steady)
    {memory : Bindings} {w w' : World σ} (hupdate : built.update memory w = (.ok true, built', w'))
    (w₁ : World σ) : (built'.update memory w₁).1 = .ok true := by
  cases built with
  | direct name r =>
    have hconsent := hupdate
    simp only [update, World.run, Prod.mk.injEq] at hupdate
    obtain ⟨-, rfl, -⟩ := hupdate
    exact consent_of_update h hconsent rfl rfl w₁.toSession
  | adapted a =>
    simp only [update, Prod.mk.injEq] at hupdate
    obtain ⟨hanswer, rfl, -⟩ := hupdate
    have hreach := Adapter.reaches_of_update hanswer
    obtain ⟨r, hr⟩ := hreach.built
    have hinner : a.inner = some r := by rw [← hr, Adapter.follow_inner]
    obtain ⟨takes, htakes⟩ := h r hinner
    have hall : ∀ r', a.inner = some r' → r'.Answers takes := fun r' hr' => by
      rw [hinner, Option.some.injEq] at hr'
      exact hr' ▸ htakes
    -- an adapter that follows these descriptors already stays as it is
    have hsame : (a.follow memory.descriptors).follow memory.descriptors =
        a.follow memory.descriptors := if_pos (Adapter.follow_planned a _).symm
    show ((a.update memory w).2.1.update memory w₁).1 = .ok true
    rw [Adapter.update_adapter]
    rw [Adapter.update_fst_of_reaches hreach hall w] at hanswer
    rw [Adapter.update_fst_of_reaches (by rw [hsame]; exact hreach)
      (by rw [Adapter.follow_inner]; exact hall) w₁, hsame]
    exact hanswer

end Instance

namespace Dispatcher

variable {ks : List (Kernel α σ)} {attrs : α} {constraints : Constraints}
  {P : String → Runner σ → Prop} {Q : Nat → Descriptors → Prop} {d : Dispatcher α σ}
  {memory : Bindings} {w : World σ}

/-- The candidate in force gives the dispatcher its name. -/
theorem Tended.name_of_taken {R : World σ → World σ → Prop} {w₀ : World σ} {i : Nat}
    {slot : Slot σ} (h : Tended ks attrs constraints (Instance.BuiltOf ks P) Q d)
    (ht : Taken R (Instance.BuiltOf ks P) Q memory w₀ d w i slot) : d.name = slot.built.name := by
  obtain ⟨k, hk, hname⟩ := (h.slots i slot ht.slot_eq).named
  unfold Dispatcher.name resolvedIndex
  rw [ht.resolved, h.candidates_eq, hname]
  simp only [Option.map_some, Option.bind_some, hk, Option.getD_some]

theorem Tended.update_reports (h : Tended ks attrs constraints (Instance.BuiltOf ks P) Q d)
    (hc : Conduct ks attrs constraints World.Spares (Instance.BuiltOf ks P))
    (hv : Vets ks attrs constraints Q) (hP : ∀ name r, P name r → r.ReportsUpdates) :
    Reports Error.isReported (d.update memory w).1 := by
  intro e he
  rcases (h.update hc hv memory w).failed e he with
    ⟨k, -, preferred, w₁, hbuild⟩ | ⟨i, built, w₁, hbuilt, hupdate⟩
  · exact Instance.build_reports k attrs _ preferred memory w₁ e hbuild
  · exact Instance.update_reports (fun r hr => hP _ r (hbuilt.has r hr)) e hupdate

/-- A call fails if the update before it does not say that a candidate takes the operands, and its
    caller is told of that as of a failed update. -/
theorem execute_error_of_update [Operation α] (hupdate : (d.update memory w).1 ≠ .ok true)
    (hreports : Reports Error.isReported (d.update memory w).1) :
    ∃ e, (d.execute memory w).1 = .error e ∧ e.isReported = true := by
  unfold Dispatcher.execute
  rcases h : d.update memory w with ⟨e | _ | _, d', w'⟩
  · exact ⟨e, rfl, hreports e (congrArg Prod.fst h)⟩
  · exact ⟨_, rfl, rfl⟩
  · exact absurd (congrArg Prod.fst h) hupdate

/-- A dispatcher in which a candidate took the operands finds it again. -/
theorem current?_of_taken {R : World σ → World σ → Prop} {J : Nat → Instance σ → Prop}
    {w₀ : World σ} {i : Nat} {slot : Slot σ} (ht : Taken R J Q memory w₀ d w i slot) :
    d.current? memory = some (i, slot) := by
  unfold current?
  rw [ht.resolved]
  simp only [if_true, ht.slot_eq, Option.map_some]

theorem update_again_of_taken {w₀ w' : World σ} {i : Nat} {slot : Slot σ}
    (ht : Taken World.Spares (Instance.BuiltOf ks P) Q memory w₀ d w i slot)
    (hP : ∀ name r, P name r → r.Steady) : (d.update memory w').1 = .ok true := by
  obtain ⟨built₀, w₁, -, hbuilt, hanswer⟩ := ht.answered
  unfold Dispatcher.update
  rw [current?_of_taken ht]
  exact Instance.update_again (fun r hr => hP _ r (hbuilt.has r hr)) hanswer w'

/-- Another update leaves it in force. -/
theorem update_name_of_taken {R : World σ → World σ → Prop} {J : Nat → Instance σ → Prop}
    {w₀ w' : World σ} {i : Nat} {slot : Slot σ} (ht : Taken R J Q memory w₀ d w i slot) :
    (d.update memory w').2.1.name = d.name := by
  unfold Dispatcher.update
  rw [current?_of_taken ht]
  rfl

end Dispatcher

namespace Executor

open Dispatcher

variable {ks : List (Kernel α σ)} {attrs : α} {constraints : Constraints}
  {P : String → Runner σ → Prop} {Q : Nat → Descriptors → Prop} {s : Executor α σ × World σ}
  {memory : Bindings}

theorem MadeOf.update_spares (h : MadeOf ks attrs constraints P Q s.1)
    (hP : ∀ name r, P name r → r.Quiet) (hks : ∀ k ∈ ks, k.Quiet attrs constraints (P k.name))
    (hv : Vets ks attrs constraints Q) (memory : Bindings) :
    s.2.Spares (s.1.update memory s.2).2.2 := by
  obtain ⟨e, w⟩ := s
  cases h with
  | single builtOf length =>
    exact Instance.update_spares (fun r hr => hP _ r (builtOf.has r hr)) memory w
  | deferred length tended => exact (tended.update (quiet_conduct hP hks) hv memory w).related

variable [Operation α]

/-- A call of the executor ends as a call of what is in `built` does, in a world in which everything
    that is held has its bytes. -/
structure CallsAs (s : Executor α σ × World σ) (memory : Bindings) (built : Instance σ)
    (w : World σ) : Prop where
  spares : s.2.Spares w
  result : (s.1.execute memory s.2).1 = (built.execute memory w).1
  name : (s.1.execute memory s.2).2.1.name = built.name
  left : (s.1.execute memory s.2).2.2 = (built.execute memory w).2

/-- What is in `built` consented to the operands, and its runner has the property that goes with the
    name. -/
def Consented (P : String → Runner σ → Prop) (memory : Bindings) (built : Instance σ) : Prop :=
  ∃ built₀ w₀ w, Instance.Has (P built₀.name) built₀ ∧
    built₀.update memory w₀ = (.ok true, built, w)

theorem Consented.has {built : Instance σ} (h : Consented P memory built) :
    built.Has (P built.name) := by
  obtain ⟨built₀, w₀, w, hP, hupdate⟩ := h
  have hhas := hP.update memory w₀
  have hname := built₀.name_update memory w₀
  rw [hupdate] at hhas hname
  rw [hname]
  exact hhas

/-- A call of a dispatcher that finds a candidate is a call of what consented. -/
theorem callsAs_of_tended {d : Dispatcher α σ}
    (h : Tended ks attrs constraints (Instance.BuiltOf ks P) Q d)
    (hc : Conduct ks attrs constraints World.Spares (Instance.BuiltOf ks P))
    (hv : Vets ks attrs constraints Q) {w : World σ}
    (htrue : (d.update memory w).1 = .ok true) :
    ∃ built w', CallsAs (.deferred d, w) memory built w' ∧ Consented P memory built := by
  rcases h.execute_eq hc hv memory w with ⟨hfalse, -⟩ | ⟨i, slot, -, ht, hexec⟩
  · exact absurd htrue hfalse
  · have hconcludes := h.update hc hv memory w
    obtain ⟨built₀, w₀, -, hbuilt, hanswer⟩ := ht.answered
    refine ⟨slot.built, (d.update memory w).2.2, ⟨hconcludes.related, ?_, ?_, ?_⟩,
      built₀, w₀, _, hbuilt.has, hanswer⟩
    · show (d.execute memory w).1 = _
      rw [hexec]
    · show (d.execute memory w).2.1.name = _
      rw [execute_dispatcher]
      exact hconcludes.tended.name_of_taken ht
    · show (d.execute memory w).2.2 = _
      rw [hexec]

/-- A call fails and its caller is told of it, or it is a call of the one thing that has been built,
    or of something that consented. -/
theorem MadeOf.execute_cases (h : MadeOf ks attrs constraints P Q s.1)
    (hP : ∀ name r, P name r → r.Quiet ∧ r.ReportsUpdates)
    (hks : ∀ k ∈ ks, k.Quiet attrs constraints (P k.name)) (hv : Vets ks attrs constraints Q)
    (memory : Bindings) :
    (∃ e, (s.1.execute memory s.2).1 = .error e ∧ e.isReported = true) ∨
      ∃ built w, CallsAs s memory built w ∧ built.Has (P built.name) ∧
        (s.1 = .single built ∨ Consented P memory built) := by
  obtain ⟨e, w⟩ := s
  cases h with
  | single builtOf length =>
    rename_i built
    exact .inr ⟨built, w, ⟨.refl w, rfl, rfl, rfl⟩, builtOf.has, .inl rfl⟩
  | deferred length tended =>
    rename_i d
    have hc := quiet_conduct (fun name r hr => (hP name r hr).1) hks
    by_cases htrue : (d.update memory w).1 = .ok true
    · obtain ⟨built, w', hcalls, hconsented⟩ := callsAs_of_tended tended hc hv htrue
      exact .inr ⟨built, w', hcalls, hconsented.has, .inr hconsented⟩
    · exact .inl (execute_error_of_update htrue
        (tended.update_reports hc hv fun name r hr => (hP name r hr).2))

/-- After an update that says that the operands can be run, a call is a call of what consented,
    under the name that the executor has then. With several candidates the operands passed the
    predicates of one of them. -/
theorem MadeOf.execute_of_update (h : MadeOf ks attrs constraints P Q s.1)
    (hP : ∀ name r, P name r → r.Quiet ∧ r.Steady)
    (hks : ∀ k ∈ ks, k.Quiet attrs constraints (P k.name)) (hv : Vets ks attrs constraints Q)
    {e' : Executor α σ} {w' : World σ} (hupdate : s.1.update memory s.2 = (.ok true, e', w')) :
    (∃ built w, CallsAs (e', w') memory built w ∧ e'.name = built.name ∧
      Consented P memory built) ∧ (ks.length ≠ 1 → ∃ i, Q i memory.descriptors) := by
  obtain ⟨e, w⟩ := s
  cases h with
  | single builtOf length =>
    rename_i built
    simp only [Executor.update, Prod.mk.injEq] at hupdate
    obtain ⟨hanswer, rfl, rfl⟩ := hupdate
    refine ⟨⟨_, _, ⟨.refl _, rfl, rfl, rfl⟩, rfl, built, w, _, builtOf.has,
      Prod.ext hanswer rfl⟩, fun hlength => absurd length hlength⟩
  | deferred length tended =>
    rename_i d
    simp only [Executor.update, Prod.mk.injEq] at hupdate
    obtain ⟨hanswer, rfl, rfl⟩ := hupdate
    have hc := quiet_conduct (fun name r hr => (hP name r hr).1) hks
    have hconcludes := tended.update hc hv memory w
    obtain ⟨i, slot, ht⟩ := hconcludes.taken hanswer
    obtain ⟨built, w₁, hcalls, hconsented⟩ := callsAs_of_tended hconcludes.tended hc hv
      (update_again_of_taken ht fun name r hr => (hP name r hr).2)
    refine ⟨⟨built, w₁, hcalls, ?_, hconsented⟩, fun _ => ⟨i, ht.vetted⟩⟩
    -- the call updates once more, which leaves the candidate in force
    rw [← hcalls.name]
    show _ = (Dispatcher.execute _ memory _).2.1.name
    rw [execute_dispatcher, update_name_of_taken ht]
    rfl

end Executor

end KernelDispatch
