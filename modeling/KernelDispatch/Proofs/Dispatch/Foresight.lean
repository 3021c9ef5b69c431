import KernelDispatch.Factory
import KernelDispatch.Proofs.Dispatch.Least

/-
  Selecting early and dispatching late. A factory selects its candidates for a pattern, whose
  extents may be unknown; its executors meet operands that the pattern stands for. If selection
  `Foresees` such operands, an executor settles on the kernel that comes first when one selects for
  the operands themselves (`make_foresees`).
-/

namespace KernelDispatch

namespace SteadyKernel

variable {α σ : Type} {attrs : α} {constraints : Constraints}

/-! ## Single kernels -/

/-- The same kernel without its predicates. -/
def unguarded (k : SteadyKernel σ attrs constraints) : SteadyKernel σ attrs constraints where
  kernel := { k.kernel with
    supports := fun _ _ _ s => (true, s)
    acceptsShapes := fun _ s => (true, s) }
  supports _ := true
  acceptsShapes _ := true
  preferred := k.preferred
  takes := k.takes
  supports_eq _ _ := rfl
  acceptsShapes_eq _ _ := rfl
  preferred_eq := k.preferred_eq
  builds := k.builds

/-- A kernel that is built alone answers every update with its verdict, provided that all operands
    are taken by one route, in their shapes, and can be staged. Its predicates are not asked. -/
theorem single_answer {k : SteadyKernel σ attrs constraints} {P : Descriptors → Prop}
    (hroute : ∀ ds ds', P ds → P ds' → k.route ds = k.route ds')
    (hkeeps : ∀ ds, P ds → k.KeepsShapes ds) (hstaged : ∀ ds, P ds → k.Staged ds)
    {memory₀ : Bindings} (h₀ : P memory₀.descriptors) (w : World σ) :
    ∃ built w', Instance.build k.kernel attrs memory₀.descriptors
        (k.preferred memory₀.descriptors) memory₀ w = (.ok built, w') ∧
      ∀ calls : List (Call σ), (∀ c ∈ calls, c.Within P) → ∀ memory, P memory.descriptors →
        ∀ w₁, let b := (Instance.after (built, w') calls).1
          (b.update memory w₁).1 = k.verdict memory.descriptors ∧ b.name = k.kernel.name := by
  have hcoherent : k.unguarded.Coherent P :=
    coherent_of_keepsShapes_of_staged (fun ds hp _ => hkeeps ds hp) (fun ds hp _ => hstaged ds hp)
  obtain ⟨built, w', hbuild, hnew⟩ := k.unguarded.build_newlyBuilt P memory₀ w
  refine ⟨built, w', hbuild, fun calls hcalls memory hp w₁ => ?_⟩
  have hafter : k.unguarded.Describes P memory₀.descriptors (Instance.after (built, w') calls).1 ∧
      (Instance.after (built, w') calls).1.name = k.kernel.name := by
    refine Instance.after_induction
      (P := fun b => k.unguarded.Describes P memory₀.descriptors b ∧ b.name = k.kernel.name)
      (fun memory hm b w hb => ?_) ⟨hnew.describes, Instance.build_name hbuild⟩
    have hpm : P memory.descriptors := hcalls _ hm
    exact ⟨hb.1.update rfl h₀ (hroute _ _ hpm h₀) rfl hpm w, by rw [Instance.name_update, hb.2]⟩
  exact ⟨hafter.1.answer hcoherent rfl h₀ (hroute _ _ hp h₀) rfl hp w₁, hafter.2⟩

/-! ## Selection -/

/-- The kernels that support a configuration, up to the first shape-agnostic one. -/
def selected (ds : Descriptors) :
    List (SteadyKernel σ attrs constraints) → List (SteadyKernel σ attrs constraints)
  | [] => []
  | k :: ks =>
    if k.supports ds then
      if k.kernel.shapeAgnostic then [k] else k :: selected ds ks
    else selected ds ks

theorem supporting_fst (ds : Descriptors) (ks : List (SteadyKernel σ attrs constraints))
    (s : Session σ) : (supporting attrs ds constraints none (ks.map kernel) s).1 =
      (selected ds ks).map kernel := by
  induction ks generalizing s with
  | nil => rfl
  | cons k ks ih =>
    have hsupports := k.supports_eq ds s
    rw [List.map_cons, supporting, selected]
    rcases hs : k.kernel.supports attrs ds constraints s with ⟨_ | _, s'⟩ <;> rw [hs] at hsupports
    · rw [← hsupports]
      exact ih s'
    · rw [← hsupports]
      cases hagnostic : k.kernel.shapeAgnostic with
      | true => rfl
      | false =>
        show k.kernel :: (supporting attrs ds constraints none (ks.map kernel) s').1 = _
        rw [ih s']
        rfl

/-- Nothing is cut off if only the last kernel is shape-agnostic. -/
theorem selected_eq_filter (ds : Descriptors) {ks : List (SteadyKernel σ attrs constraints)}
    (h : ∀ k ∈ ks.dropLast, k.kernel.shapeAgnostic = false) :
    selected ds ks = ks.filter fun k => k.supports ds := by
  induction ks with
  | nil => rfl
  | cons k ks ih =>
    rw [selected]
    cases ks with
    | nil => cases hk : k.supports ds <;> simp [selected, hk]
    | cons k' ks =>
      rw [List.dropLast_cons_cons] at h
      obtain ⟨hagnostic, hrest⟩ := List.forall_mem_cons.1 h
      rw [hagnostic, ih hrest, List.filter_cons (x := k)]
      rfl

theorem candidates_eq_ok [Operation α] {ds : Descriptors}
    {ks : List (SteadyKernel σ attrs constraints)} {s s' : Session σ} {found : List (Kernel α σ)}
    (h : KernelDispatch.candidates (ks.map kernel) attrs ds constraints none s = (.ok found, s')) :
    found = (selected ds ks).map kernel := by
  have hfst := supporting_fst ds ks s
  unfold KernelDispatch.candidates at h
  split at h
  · cases h
  · rename_i found' s'' _ heq
    rw [heq] at hfst
    cases h
    exact hfst

end SteadyKernel

/-! ## Selecting for a pattern -/

open SteadyKernel

variable {α σ : Type} {attrs : α} {constraints : Constraints}

/-- Selection for the pattern drops no kernel that supports operands with the property `P`. All such
    operands are taken by one route by each kernel, in their shapes, and can be staged for those
    that are selected. -/
structure Foresees (ks : List (SteadyKernel σ attrs constraints)) (pattern : Descriptors)
    (P : Descriptors → Prop) : Prop where
  agnostic : ∀ k ∈ ks.dropLast, k.kernel.shapeAgnostic = false
  supports : ∀ k ∈ ks, ∀ ds, P ds → k.supports ds = true → k.supports pattern = true
  route : ∀ k ∈ ks, ∀ ds ds', P ds → P ds' → k.route ds = k.route ds'
  keepsShapes : ∀ k ∈ ks, ∀ ds, P ds → k.KeepsShapes ds
  staged : ∀ k ∈ ks, k.supports pattern = true → ∀ ds, P ds → k.Staged ds

variable {ks : List (SteadyKernel σ attrs constraints)} {pattern : Descriptors}
  {P : Descriptors → Prop}

theorem Foresees.selected_eq (h : Foresees ks pattern P) (ds : Descriptors) :
    selected ds ks = ks.filter fun k => k.supports ds := selected_eq_filter ds h.agnostic

/-- What is selected for operands can be selected among what has been selected for the pattern. -/
theorem Foresees.filter_selected (h : Foresees ks pattern P) {ds : Descriptors} (hp : P ds) :
    (selected pattern ks).filter (fun k => k.supports ds) = selected ds ks := by
  rw [h.selected_eq, h.selected_eq, List.filter_filter]
  refine List.filter_congr fun k hk => ?_
  cases hds : k.supports ds with
  | false => rfl
  | true => rw [h.supports k hk ds hp hds]; rfl

theorem Foresees.mem (h : Foresees ks pattern P) {k : SteadyKernel σ attrs constraints}
    (hk : k ∈ selected pattern ks) : k ∈ ks ∧ k.supports pattern = true := by
  rw [h.selected_eq, List.mem_filter] at hk
  exact hk

/-- The first kernel selected for operands is the first one in the selection for the pattern that
    does not refuse them. -/
theorem Foresees.first (h : Foresees ks pattern P) {ds : Descriptors} (hp : P ds)
    {k : SteadyKernel σ attrs constraints} {rest : List (SteadyKernel σ attrs constraints)}
    (hsel : selected ds ks = k :: rest) (hk : k.response ds = .ok true) :
    ∃ i, First ds (selected pattern ks) i k := by
  rw [← h.filter_selected hp, List.filter_eq_cons_iff] at hsel
  obtain ⟨before, after, heq, hbefore, -, -⟩ := hsel
  refine ⟨before.length, ?_, by rw [hk]; simp, fun j hj k' hk' => ?_⟩
  · rw [heq, List.getElem?_append_right (Nat.le_refl _), Nat.sub_self]
    rfl
  · rw [heq, List.getElem?_append_left hj] at hk'
    have hrefused : k'.accepts ds = false := by
      rw [accepts, Bool.eq_false_iff.2 (hbefore k' (List.mem_of_getElem? hk'))]
      rfl
    unfold response
    rw [hrefused]
    rfl

/-- With the executor in this state an update takes the operands, and its kernel is the one of the
    given name afterwards. -/
def SettlesOn (s : Executor α σ × World σ) (memory : Bindings) (name : String) : Prop :=
  (s.1.update memory s.2).1 = .ok true ∧ (s.1.update memory s.2).2.1.name = name

theorem verdict_of_response {k : SteadyKernel σ attrs constraints} {ds : Descriptors}
    (h : k.response ds = .ok true) : k.verdict ds = .ok true := by
  unfold response at h
  split at h
  · exact h
  · cases h

theorem response_of_verdict {k : SteadyKernel σ attrs constraints} {ds : Descriptors}
    (hsupports : k.supports ds = true) (hshapes : k.acceptsShapes ds = true)
    (h : k.verdict ds = .ok true) : k.response ds = .ok true := by
  unfold response
  rw [if_pos (show k.accepts ds = true from Bool.and_eq_true_iff.2 ⟨hsupports, hshapes⟩), h]

/-- A factory with one candidate makes an executor of that kernel. -/
theorem make_single [Operation α] {k : SteadyKernel σ attrs constraints}
    (hroute : ∀ ds ds', P ds → P ds' → k.route ds = k.route ds')
    (hkeeps : ∀ ds, P ds → k.KeepsShapes ds) (hstaged : ∀ ds, P ds → k.Staged ds)
    (context : Context) {memory₀ : Bindings} (h₀ : P memory₀.descriptors) (w : World σ) :
    ∃ e w', Factory.make ⟨attrs, context, constraints, [k.kernel]⟩ memory₀ w = (.ok e, w') ∧
      ∀ calls : List (Call σ), (∀ c ∈ calls, c.Within P) → ∀ memory : Bindings,
        P memory.descriptors → k.verdict memory.descriptors = .ok true →
          SettlesOn (Executor.after (e, w') calls) memory k.kernel.name := by
  obtain ⟨built, w', hbuild, hanswer⟩ := single_answer hroute hkeeps hstaged h₀
    (w.run (k.kernel.preferred attrs memory₀.descriptors)).2
  refine ⟨.single built, w', ?_, fun calls hcalls memory hp hverdict => ?_⟩
  · have hasked : w.run (k.kernel.preferred attrs memory₀.descriptors) =
        (k.preferred memory₀.descriptors,
          (w.run (k.kernel.preferred attrs memory₀.descriptors)).2) :=
      Prod.ext (k.preferred_eq _ _) rfl
    simp only [Factory.make]
    rw [hasked]
    simp only [hbuild]
  · obtain ⟨htrue, hname⟩ := hanswer calls hcalls memory hp (Instance.after (built, w') calls).2
    rw [Executor.after_single (built, w') calls]
    exact ⟨htrue.trans hverdict, (Instance.name_update _ _ _).trans hname⟩

/-- A dispatcher settles on the first candidate that does not refuse, if that one takes the
    operands. -/
theorem dispatcher_settlesOn [Operation α] {s : Dispatcher α σ × World σ} (h : s.1.Ready ks P)
    (hks : ∀ k ∈ ks, k.Coherent P) {memory : Bindings} (hp : P memory.descriptors) {i : Nat}
    {k : SteadyKernel σ attrs constraints} (hfirst : First memory.descriptors ks i k)
    (hk : k.response memory.descriptors = .ok true) :
    SettlesOn (.deferred s.1, s.2) memory k.kernel.name := by
  have hfollows := h.update hks hp s.2
  obtain ⟨htrue, hresolved⟩ := (hfollows.taken_iff i).2 (choose_eq_ok_some_iff.2 ⟨k, hfirst, hk⟩)
  refine ⟨htrue, ?_⟩
  show (s.1.update memory s.2).2.1.name = _
  unfold Dispatcher.name Dispatcher.resolvedIndex
  rw [hresolved, hfollows.sound.candidates_eq]
  simp only [Option.map_some, Option.bind_some, List.getElem?_map, hfirst.at_index,
    Option.getD_some]

/-- An executor made of the selection for the pattern settles on the kernel that comes first in the
    selection for the operands themselves, if that kernel takes them when it is asked anew. -/
theorem Foresees.make_settlesOn [Operation α] (h : Foresees ks pattern P) (context : Context)
    {memory₀ : Bindings} (h₀ : P memory₀.descriptors) (w : World σ) :
    ∃ e w', Factory.make ⟨attrs, context, constraints, (selected pattern ks).map kernel⟩ memory₀ w =
        (.ok e, w') ∧
      ∀ calls : List (Call σ), (∀ c ∈ calls, c.Within P) → ∀ memory : Bindings,
        P memory.descriptors → ∀ k rest, selected memory.descriptors ks = k :: rest →
          k.response memory.descriptors = .ok true →
            SettlesOn (Executor.after (e, w') calls) memory k.kernel.name := by
  by_cases hone : ∃ k, selected pattern ks = [k]
  · obtain ⟨k₀, hk₀⟩ := hone
    obtain ⟨hmem, hsupports⟩ := h.mem (hk₀ ▸ List.mem_singleton_self k₀)
    obtain ⟨e, w', hmake, hsettles⟩ := make_single (h.route k₀ hmem) (h.keepsShapes k₀ hmem)
      (h.staged k₀ hmem hsupports) context h₀ w
    rw [hk₀]
    refine ⟨e, w', hmake, fun calls hcalls memory hp k rest hsel hk => ?_⟩
    have hin : k ∈ selected memory.descriptors ks := by rw [hsel]; exact List.mem_cons_self
    rw [← h.filter_selected hp, hk₀] at hin
    obtain rfl := List.mem_singleton.1 (List.mem_filter.1 hin).1
    exact hsettles calls hcalls memory hp (verdict_of_response hk)
  · have hcoherent : ∀ k ∈ selected pattern ks, k.Coherent P := fun k hk =>
      coherent_of_keepsShapes_of_staged (fun ds hp _ => h.keepsShapes k (h.mem hk).1 ds hp)
        (fun ds hp _ => h.staged k (h.mem hk).1 (h.mem hk).2 ds hp)
    refine ⟨.deferred (.ofCandidates ((selected pattern ks).map kernel) attrs constraints context),
      w, ?_, fun calls hcalls memory hp k rest hsel hk => ?_⟩
    · unfold Factory.make
      split
      · rename_i k heq
        obtain ⟨k', hk', -⟩ := List.map_eq_singleton_iff.1 heq
        exact absurd ⟨k', hk'⟩ hone
      · rfl
    · obtain ⟨i, hfirst⟩ := h.first hp hsel hk
      rw [Executor.after_deferred (_, w) calls]
      exact dispatcher_settlesOn
        ((Dispatcher.ready_ofCandidates _ P context).after hcoherent hcalls) hcoherent hp hfirst hk

theorem mem_of_selected {ds : Descriptors} {k : SteadyKernel σ attrs constraints}
    (hk : k ∈ selected ds ks) : k ∈ ks ∧ k.supports ds = true := by
  induction ks with
  | nil => cases hk
  | cons k' ks ih =>
    rw [selected] at hk
    split at hk
    · rename_i hsupports
      split at hk
      · obtain rfl := List.mem_singleton.1 hk
        exact ⟨List.mem_cons_self, hsupports⟩
      · rcases List.mem_cons.1 hk with rfl | hk
        · exact ⟨List.mem_cons_self, hsupports⟩
        · exact (ih hk).imp_left (List.mem_cons_of_mem _)
    · exact (ih hk).imp_left (List.mem_cons_of_mem _)

/-- Let selection for a pattern foresee operands, and let the kernels take the operands in `memory`
    if they support them. Then every executor of the factory settles on the first candidate that
    selection for these operands finds. -/
theorem Foresees.agrees [Operation α] (h : Foresees ks pattern P) {context : Context}
    (hoverride : context.overrides.priorityFor (Operation.key α) = none) {s s' : Session σ}
    {f : Factory α σ}
    (hselect : Factory.select (ks.map kernel) attrs context pattern constraints none s =
      (.ok f, s')) {memory₀ : Bindings} (h₀ : P memory₀.descriptors) (w : World σ) :
    ∃ e w', f.make memory₀ w = (.ok e, w') ∧
      ∀ calls : List (Call σ), (∀ c ∈ calls, c.Within P) → ∀ memory : Bindings,
        P memory.descriptors →
        (∀ k ∈ ks, k.supports memory.descriptors = true →
          k.response memory.descriptors = .ok true) →
        ∀ t t' k rest, KernelDispatch.candidates (ks.map kernel) attrs memory.descriptors
            constraints none t = (.ok (k :: rest), t') →
          SettlesOn (Executor.after (e, w') calls) memory k.name := by
  have hf : f = ⟨attrs, context, constraints, (selected pattern ks).map kernel⟩ := by
    unfold Factory.select Factory.priorityIn at hselect
    rw [hoverride] at hselect
    split at hselect
    · rename_i found _ hfound
      cases hselect
      rw [candidates_eq_ok hfound]
    · cases hselect
  obtain ⟨e, w', hmake, hsettles⟩ := h.make_settlesOn context h₀ w
  refine ⟨e, w', hf ▸ hmake, fun calls hcalls memory hp htakes t t' k rest hcandidates => ?_⟩
  obtain ⟨k', rest', hsel, rfl, -⟩ := List.map_eq_cons_iff.1 (candidates_eq_ok hcandidates).symm
  obtain ⟨hmem, hsupports⟩ := mem_of_selected (hsel ▸ List.mem_cons_self)
  exact hsettles calls hcalls memory hp k' rest' hsel (htakes k' hmem hsupports)

end KernelDispatch
