import KernelDispatch.Proofs.Dispatch.Calls
import KernelDispatch.Proofs.Dispatch.Foresight

/-
  From operands to the first call on them. A factory selects its candidates for the very operands
  that its executor is made for and called on. If the kernels change nothing until they run, and
  take what they support, then selecting and making succeed, everything that is held keeps its
  bytes, and the call is a call of something that consented (`Foresees.first_call`).
-/

namespace KernelDispatch

variable {α σ : Type} {attrs : α} {constraints : Constraints}
  {P : String → Runner σ → Prop}

/-- What has been built for operands is not planned again for them. -/
theorem Instance.update_of_build {k : Kernel α σ} {preferred : Option Descriptors}
    {memory : Bindings} {w w' : World σ} {built : Instance σ}
    (h : build k attrs memory.descriptors preferred memory w = (.ok built, w')) (w₁ : World σ) :
    (built.update memory w₁).2.1 = built := by
  cases preferred with
  | none =>
    simp only [build] at h
    split at h
    · cases h
      rfl
    · cases h
  | some target =>
    simp only [build] at h
    split at h
    · rename_i a _ ha
      cases h
      obtain ⟨inner, rfl⟩ := Adapter.exists_around_of_build ha
      refine congrArg Instance.adapted ((Adapter.update_adapter _ memory w₁).trans ?_)
      exact if_pos rfl
    · cases h

/-! ## Selecting -/

/-- Asking quiet kernels whether they support a configuration leaves no trace. -/
theorem supporting_snd {ks : List (Kernel α σ)}
    (hks : ∀ k ∈ ks, k.Quiet attrs constraints (P k.name)) (ds : Descriptors)
    (priority : Option String) (s : Session σ) :
    (supporting attrs ds constraints priority ks s).2 = s := by
  induction ks with
  | nil => rfl
  | cons k ks ih =>
    obtain ⟨hk, hrest⟩ := List.forall_mem_cons.1 hks
    have hasked := hk.supports ds s
    rw [supporting]
    split
    · exact ih hrest
    · rcases hs : k.supports attrs ds constraints s with ⟨_ | _, s'⟩
      all_goals
        rw [hs] at hasked
        obtain rfl := hasked
      · exact ih hrest
      · dsimp only
        split
        · rfl
        · exact ih hrest

section

open SteadyKernel

variable {ks : List (SteadyKernel σ attrs constraints)} {pattern : Descriptors}
  {R : Descriptors → Prop}

/-- If a kernel supports the operands, candidates are found for them. -/
theorem Foresees.exists_candidates [Operation α] (h : Foresees ks pattern R)
    (hks : ∀ k ∈ ks, k.kernel.Quiet attrs constraints (P k.kernel.name))
    {k : SteadyKernel σ attrs constraints} (hk : k ∈ ks) {ds : Descriptors} (hsupports : k.supports ds = true) (s : Session σ) :
    ∃ first rest, candidates (ks.map kernel) attrs ds constraints none s =
      (.ok (first :: rest), s) := by
  have hmem : k ∈ selected ds ks := by
    rw [h.selected_eq, List.mem_filter]
    exact ⟨hk, hsupports⟩
  have hfound := supporting_fst ds ks s
  have hsame : (supporting attrs ds constraints none (ks.map kernel) s).2 = s := by
    refine supporting_snd (P := P) (fun k' hk' => ?_) ds none s
    obtain ⟨k'', hk'', rfl⟩ := List.mem_map.1 hk'
    exact hks k'' hk''
  obtain ⟨first, rest, hselected⟩ := List.exists_cons_of_ne_nil (List.ne_nil_of_mem hmem)
  rw [hselected] at hfound
  refine ⟨first.kernel, rest.map kernel, ?_⟩
  unfold candidates
  rcases hs : supporting attrs ds constraints none (ks.map kernel) s with ⟨found, s'⟩
  rw [hs] at hfound hsame
  obtain rfl : found = first.kernel :: rest.map kernel := hfound
  obtain rfl : s' = s := hsame
  rfl

theorem Factory.select_of_candidates [Operation α] {kernels : List (Kernel α σ)} {context : Context}
    (hoverride : context.overrides.priorityFor (Operation.key α) = none) {ds : Descriptors}
    {s s' : Session σ} {found : List (Kernel α σ)}
    (h : KernelDispatch.candidates kernels attrs ds constraints none s = (.ok found, s')) :
    Factory.select kernels attrs context ds constraints none s =
      (.ok ⟨attrs, context, constraints, found⟩, s') := by
  unfold Factory.select Factory.priorityIn
  rw [hoverride, Option.or_none, h]

end

/-! ## Making -/

namespace Factory

variable {f : Factory α σ} {memory : Bindings} {w w' : World σ} {e : Executor α σ}

theorem make_spares (hks : ∀ k ∈ f.candidates, k.Quiet f.attrs f.constraints (P k.name))
    (h : f.make memory w = (.ok e, w')) : w.Spares w' := by
  unfold make at h
  split at h
  · rename_i k hone
    have hk : k.Quiet f.attrs f.constraints (P k.name) :=
      hks k (by rw [hone]; exact List.mem_singleton_self k)
    have hasked : (w.run (k.preferred f.attrs memory.descriptors)).2 = w := by
      show ({ w with toSession := (k.preferred f.attrs memory.descriptors w.toSession).2 } :
        World σ) = w
      rw [hk.preferred]
    dsimp only at h
    rw [hasked] at h
    split at h
    · rename_i built w₁ hbuild
      cases h
      exact Instance.build_spares hk hbuild
    · cases h
  · cases h
    exact .refl w

/-- If an update to the operands that an executor was made for would say that they can be run, a
    call without one is a call of something that consented. -/
theorem consents_of_make [Operation α] (hP : ∀ name r, P name r → r.Quiet)
    (hks : ∀ k ∈ f.candidates, k.Quiet f.attrs f.constraints (P k.name))
    (h : f.make memory w = (.ok e, w')) (htrue : (e.update memory w').1 = .ok true) :
    ∃ built w₁, Executor.CallsAs (e, w') memory built w₁ ∧
      Executor.Consented P memory built := by
  cases make_madeOf hks (fun _ _ => True) h with
  | deferred length tended =>
    exact Executor.callsAs_of_tended tended (Dispatcher.quiet_conduct hP hks)
      (fun _ _ _ _ _ _ _ _ => trivial) htrue
  | single builtOf length =>
    rename_i built
    -- a single candidate is not updated by the call, but it is planned for these operands already
    have hsame : (built.update memory w').2.1 = built := by
      unfold make at h
      split at h
      · dsimp only at h
        split at h
        · rename_i hbuild
          cases h
          exact Instance.update_of_build hbuild w'
        · cases h
      · cases h
    refine ⟨built, w', ⟨.refl w', rfl, rfl, rfl⟩, built, w', (built.update memory w').2.2,
      builtOf.has, ?_⟩
    exact Prod.ext htrue (Prod.ext hsame rfl)

end Factory

/-- Let selection foresee the operands in `memory`, and let the kernels take them if they support
    them. If one of them does, selecting for these operands and making an executor for them succeed
    and leave alone what is held, and a call on them is a call of something that consented. -/
theorem Foresees.first_call [Operation α] {ks : List (SteadyKernel σ attrs constraints)}
    {R : Descriptors → Prop} {memory : Bindings} (h : Foresees ks memory.descriptors R)
    (hR : R memory.descriptors) (hP : ∀ name r, P name r → r.Quiet)
    (hks : ∀ k ∈ ks, k.kernel.Quiet attrs constraints (P k.kernel.name))
    (htakes : ∀ k ∈ ks, k.supports memory.descriptors = true →
      k.response memory.descriptors = .ok true)
    {k : SteadyKernel σ attrs constraints} (hk : k ∈ ks)
    (hsupports : k.supports memory.descriptors = true) {context : Context}
    (hoverride : context.overrides.priorityFor (Operation.key α) = none) (w : World σ) :
    ∃ f, Factory.select (ks.map SteadyKernel.kernel) attrs context memory.descriptors constraints
        none w.toSession = (.ok f, w.toSession) ∧
      ∃ e w₁, f.make memory w = (.ok e, w₁) ∧ w.Spares w₁ ∧
        ∃ built w₂, Executor.CallsAs (e, w₁) memory built w₂ ∧
          Executor.Consented P memory built := by
  obtain ⟨first, rest, hfound⟩ := h.exists_candidates hks hk hsupports w.toSession
  have hselect := Factory.select_of_candidates hoverride hfound
  obtain ⟨e, w₁, hmake, hsettles⟩ := h.agrees hoverride hselect hR w
  have htrue := (hsettles [] (fun _ hc => by cases hc) memory hR htakes _ _ _ _ hfound).1
  have hquiet : ∀ k' ∈ first :: rest, k'.Quiet attrs constraints (P k'.name) := fun k' hk' => by
    obtain ⟨-, -, hmem⟩ := Factory.of_select hselect
    obtain ⟨k'', hk'', rfl⟩ := List.mem_map.1 (hmem k' hk')
    exact hks k'' hk''
  exact ⟨_, hselect, e, w₁, hmake, Factory.make_spares hquiet hmake,
    Factory.consents_of_make hP hquiet hmake htrue⟩

end KernelDispatch
