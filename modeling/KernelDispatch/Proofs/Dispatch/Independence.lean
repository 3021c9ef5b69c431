import KernelDispatch.Proofs.Adapter.Formats
import KernelDispatch.Proofs.Dispatch.Scripts
import KernelDispatch.Proofs.Dispatch.Walk

/-
  Whether replies depend on the history of a dispatcher. They do not, for whatever candidates from
  a stock of steady kernels, exactly if all kernels in the stock are coherent
  (`independent_of_history_iff`). A dispatcher over one candidate that is not coherent gives it away
  in two or three updates: what stays built for one set of operands is then asked about another
  (`BuiltFor.answer_eq_verdict_iff`).
-/

namespace KernelDispatch

namespace Dispatcher

variable {α σ : Type} {attrs : α} {constraints : Constraints}
  {k : SteadyKernel σ attrs constraints}

/-! ## One candidate -/

/-- No decision on the operands is remembered or in force. -/
def Undecided (d : Dispatcher α σ) (ds : Descriptors) : Prop :=
  (∀ e ∈ d.decisions.entries, e.1 ≠ ds) ∧ ∀ i, d.resolved ≠ some (ds, i)

/-- The dispatcher serves one candidate, which has been built for the operands `origin` and updated
    to the operands `latest` after that. -/
structure BuiltFor (k : SteadyKernel σ attrs constraints) (origin latest : Descriptors)
    (d : Dispatcher α σ) : Prop where
  serves : Serves [k] d
  slot : ∃ slot, d.slot? 0 = some slot ∧ slot.route = k.route origin ∧
    k.Describes Descriptors.Allocatable origin slot.built ∧
      ∀ a, slot.built = .adapted a → a.planned = latest

theorem update_of_undecided {d : Dispatcher α σ} {memory : Bindings}
    (hu : d.Undecided memory.descriptors) (w : World σ) :
    d.update memory w = { d with resolved := none }.walkAll memory w := by
  have hcurrent : d.current? memory = none := by
    unfold current?
    cases hres : d.resolved with
    | none => rfl
    | some inForce =>
      obtain ⟨signature, i⟩ := inForce
      refine if_neg fun hsig => hu.2 i ?_
      rw [hres, hsig]
  unfold Dispatcher.update
  rw [hcurrent]
  show d.resolve memory w = _
  unfold Dispatcher.resolve
  simp only [Recency.use?_eq_none hu.1]

/-- An update to undecided operands offers them to the candidate by a slot on their route: the one
    that is there, or one with a newly built kernel if there is none. A decision is made at most on
    these operands, and only if they are taken. -/
theorem Serves.update_of_undecided {d : Dispatcher α σ} (h : Serves [k] d) {memory : Bindings}
    (hu : d.Undecided memory.descriptors) (hacc : k.accepts memory.descriptors = true)
    (w : World σ) : ∃ slot w', slot.route = k.route memory.descriptors ∧
      (d.slot? 0 = some slot ∨
        k.NewlyBuilt Descriptors.Allocatable memory.descriptors slot.built ∧
          ∀ kept, d.slot? 0 = some kept → kept.route ≠ k.route memory.descriptors) ∧
      (d.update memory w).1 = (slot.built.update memory w').1 ∧
      Serves [k] (d.update memory w).2.1 ∧
      (d.update memory w).2.1.slot? 0 =
        some { slot with built := (slot.built.update memory w').2.1 } ∧
      ∀ ds, d.Undecided ds → (ds ≠ memory.descriptors ∨ (d.update memory w).1 ≠ .ok true) →
        (d.update memory w).2.1.Undecided ds := by
  have hserves : Serves [k] { d with resolved := none } :=
    ⟨h.attrs_eq, h.constraints_eq, h.candidates_eq, h.length_slots⟩
  obtain ⟨w₁, hwalk⟩ := hserves.walk_of_accepts hacc 0 [] w
  obtain ⟨slot, w', htry, hroute, hslot⟩ := hserves.trySelect_eq_offer 0 k
    Descriptors.Allocatable memory (some (k.preferred memory.descriptors))
    (fun known hknown => (Option.some.inj hknown).symm) w₁
  refine ⟨slot, w', hroute, hslot, ?_⟩
  have hcandidates : ({ d with resolved := none } : Dispatcher α σ).candidates.zipIdx =
      [(k.kernel, 0)] := by
    rw [hserves.candidates_eq]
    rfl
  have hset := hserves.setSlot 0 { slot with built := (slot.built.update memory w').2.1 }
  have hself := hserves.slot?_setSlot_self (i := 0) (k := k) rfl
    { slot with built := (slot.built.update memory w').2.1 }
  rw [Dispatcher.update_of_undecided hu]
  unfold Dispatcher.walkAll
  rw [hcandidates, hwalk, htry]
  unfold offer
  rcases hup : slot.built.update memory w' with ⟨_ | _ | _, built, w₂⟩
  · rw [hup] at hset hself
    exact ⟨rfl, hset, hself, fun ds hds _ => ⟨hds.1, fun i hi => by cases hi⟩⟩
  · rw [hup] at hset hself
    exact ⟨rfl, hset, hself, fun ds hds _ => ⟨hds.1, fun i hi => by cases hi⟩⟩
  · rw [hup] at hset hself
    refine ⟨rfl, ⟨hset.attrs_eq, hset.constraints_eq, hset.candidates_eq, hset.length_slots⟩,
      hself, fun ds hds hother => ?_⟩
    have hne : ds ≠ memory.descriptors := hother.resolve_right fun h => h rfl
    refine ⟨fun e he => ?_, fun i hi => ?_⟩
    · rcases Recency.mem_of_store he with rfl | he
      · exact hne.symm
      · exact hds.1 e he
    · cases hi
      exact hne rfl

theorem undecided_ofCandidates (candidates : List (Kernel α σ)) (context : Context)
    (ds : Descriptors) : (ofCandidates candidates attrs constraints context).Undecided ds :=
  ⟨by rintro e ⟨⟩, by rintro i ⟨⟩⟩

/-- The adapter of a slot that has been updated is planned for the latest operands. -/
theorem planned_of_update {built : Instance σ} {memory : Bindings} {w : World σ} {a : Adapter σ}
    (h : (built.update memory w).2.1 = .adapted a) : a.planned = memory.descriptors := by
  cases built with
  | direct name r => cases h
  | adapted b =>
    have ha : (b.update memory w).2.1 = a := Instance.adapted.inj h
    rw [← ha, Adapter.update_adapter, Adapter.follow_planned]

/-- A dispatcher that has built nothing gives the verdict, and the candidate is built for the
    operands then. -/
theorem Serves.update_of_empty {d : Dispatcher α σ} (h : Serves [k] d) (hempty : d.slot? 0 = none)
    {memory : Bindings} (hu : d.Undecided memory.descriptors)
    (hacc : k.accepts memory.descriptors = true) (hall : memory.Allocatable) (w : World σ) :
    (d.update memory w).1 = k.verdict memory.descriptors ∧
      BuiltFor k memory.descriptors memory.descriptors (d.update memory w).2.1 ∧
      ∀ ds, d.Undecided ds → (ds ≠ memory.descriptors ∨ (d.update memory w).1 ≠ .ok true) →
        (d.update memory w).2.1.Undecided ds := by
  obtain ⟨slot, w', hroute, hslot, hanswer, hserves, hself, hundecided⟩ :=
    h.update_of_undecided hu hacc w
  have hnew : k.NewlyBuilt Descriptors.Allocatable memory.descriptors slot.built := by
    rcases hslot with hslot | ⟨hnew, -⟩
    · rw [hempty] at hslot
      cases hslot
    · exact hnew
  exact ⟨hanswer.trans (hnew.answer w'), ⟨hserves, _, hself, hroute,
    hnew.describes.update hacc hall rfl hacc hall w', fun a ha => planned_of_update ha⟩, hundecided⟩

/-- Other operands of the same route meet the slot that is there. -/
theorem BuiltFor.update {origin latest : Descriptors} {d : Dispatcher α σ}
    (h : BuiltFor k origin latest d) {memory : Bindings} (hu : d.Undecided memory.descriptors)
    (hr : k.route memory.descriptors = k.route origin)
    (hacc : k.accepts memory.descriptors = true) (hall : memory.Allocatable)
    (ho : k.accepts origin = true) (hoa : origin.Allocatable) (w : World σ) :
    BuiltFor k origin memory.descriptors (d.update memory w).2.1 ∧
      (∃ slot w', d.slot? 0 = some slot ∧
        (d.update memory w).1 = (slot.built.update memory w').1) ∧
      ∀ ds, d.Undecided ds → ds ≠ memory.descriptors → (d.update memory w).2.1.Undecided ds := by
  obtain ⟨kept, hkept, hkeptRoute, hdesc, -⟩ := h.slot
  obtain ⟨slot, w', hroute, hslot, hanswer, hserves, hself, hundecided⟩ :=
    h.serves.update_of_undecided hu hacc w
  have hsame : d.slot? 0 = some slot := by
    rcases hslot with hslot | ⟨-, hother⟩
    · exact hslot
    · exact absurd (hkeptRoute.trans hr.symm) (hother kept hkept)
  rw [hkept] at hsame
  cases hsame
  exact ⟨⟨hserves, _, hself, hkeptRoute, hdesc.update ho hoa hr hacc hall w',
    fun a ha => planned_of_update ha⟩, ⟨kept, w', hkept, hanswer⟩,
    fun ds hds hne => hundecided ds hds (.inl hne)⟩

/-- A candidate that is not planned for the operands gives its verdict on them under one condition
    only: they can be staged, in their shapes, exactly if those could that it was built for. -/
theorem BuiltFor.answer_eq_verdict_iff {origin latest : Descriptors} {d : Dispatcher α σ}
    (h : BuiltFor k origin latest d) {memory : Bindings} (hu : d.Undecided memory.descriptors)
    (hr : k.route memory.descriptors = k.route origin)
    (hacc : k.accepts memory.descriptors = true) (hall : memory.Allocatable)
    (ho : k.accepts origin = true) (hoa : origin.Allocatable)
    (haway : latest ≠ memory.descriptors) (w : World σ) :
    (d.update memory w).1 = k.verdict memory.descriptors ↔ (k.Poised memory.descriptors →
      ((k.KeepsShapes memory.descriptors ∧ k.Staged memory.descriptors) ↔ k.Staged origin)) := by
  obtain ⟨-, ⟨slot, w', hslot, hanswer⟩, -⟩ := h.update hu hr hacc hall ho hoa w
  obtain ⟨slot', hslot', -, hdesc, hplanned⟩ := h.slot
  rw [hslot] at hslot'
  cases hslot'
  rw [hanswer]
  cases hbuilt : slot.built with
  | direct name r =>
    rw [hbuilt] at hdesc
    obtain ⟨hnone, hans⟩ := hdesc
    have hnew : k.NewlyBuilt Descriptors.Allocatable memory.descriptors (.direct name r) :=
      ⟨hr.trans hnone, hans⟩
    have hsame : ∀ ds, k.route ds = none → k.KeepsShapes ds ∧ k.Staged ds := fun ds hds => by
      have hpref := SteadyKernel.preferred_of_route_eq_none hds
      constructor
      · intro target ht
        rw [hpref] at ht
        cases ht
      · intro p d hd
        simp only [SteadyKernel.conversions, hpref, Option.elim_none, OrderedMap.get?_empty] at hd
        cases hd
    exact ⟨fun _ _ => ⟨fun _ => (hsame origin hnone).2, fun _ => hsame _ (hr.trans hnone)⟩,
      fun _ => hnew.answer w'⟩
  | adapted a =>
    rw [hbuilt] at hdesc
    have hfollow : (a.follow memory.descriptors).conversions = k.carried memory.descriptors :=
      SteadyKernel.DescribesAdapter.conversions_follow hdesc hr
        fun hhome => haway ((hplanned a hbuilt).symm.trans hhome.1)
    exact SteadyKernel.DescribesAdapter.answer_eq_verdict_iff hdesc hfollow w'

/-! ## Candidates from a stock -/

/-- Replies do not depend on the history: after any calls a dispatcher over the candidates replies
    as a new one does, in any world. -/
def Independent [Operation α] (ks : List (SteadyKernel σ attrs constraints)) (context : Context) :
    Prop :=
  ∀ calls : List (Call σ), (∀ c ∈ calls, c.Within Descriptors.Allocatable) →
    ∀ memory : Bindings, memory.Allocatable → ∀ w w' : World σ,
      let fresh := ofCandidates (ks.map SteadyKernel.kernel) attrs constraints context
      reply (after (fresh, w) calls) memory = reply (fresh, w') memory

theorem independent_of_coherent [Operation α] {ks : List (SteadyKernel σ attrs constraints)}
    (hks : ∀ k ∈ ks, k.Coherent Descriptors.Allocatable) (context : Context) :
    Independent ks context := by
  intro calls hcalls memory hall w w' fresh
  have hready : fresh.Ready ks Descriptors.Allocatable := ready_ofCandidates ks _ context
  have hafter : (after (fresh, w) calls).1.Ready ks Descriptors.Allocatable :=
    Ready.after (s := (fresh, w)) hready hks hcalls
  have hfresh : reply (fresh, w') memory = walkReply ks memory.descriptors :=
    Ready.reply_eq (s := (fresh, w')) hready hks hall
  rw [hafter.reply_eq hks hall, hfresh]

/-- Operands that are asked about after rivals of theirs. -/
theorem Independent.staged_iff [Operation α] {context : Context} (h : Independent [k] context)
    (w : World σ) {memory memory' : Bindings}
    (hrivals : k.Rivals Descriptors.Allocatable memory.descriptors memory'.descriptors)
    (hpoised : k.Poised memory.descriptors) :
    (k.KeepsShapes memory.descriptors ∧ k.Staged memory.descriptors) ↔
      k.Staged memory'.descriptors := by
  obtain ⟨hne, hroute, hacc, hacc', hall, hall'⟩ := hrivals
  let fresh := ofCandidates ([k].map SteadyKernel.kernel) attrs constraints context
  have hserves : Serves [k] fresh := serves_ofCandidates [k] context
  have hundecided : ∀ ds, fresh.Undecided ds := undecided_ofCandidates _ context
  have hempty : fresh.slot? 0 = none := slot?_ofCandidates _ context 0
  obtain ⟨hverdict, -, -⟩ := hserves.update_of_empty hempty (hundecided _) hacc hall w
  obtain ⟨-, hbuilt, hstill⟩ := hserves.update_of_empty hempty (hundecided _) hacc' hall' w
  have hsame := congrArg Prod.fst (h [.update memory']
    (fun c hc => by rw [List.mem_singleton.1 hc]; exact hall') memory hall w w)
  exact (hbuilt.answer_eq_verdict_iff (hstill _ (hundecided _) (.inl hne)) hroute hacc hall hacc'
    hall' hne.symm (fresh.update memory' w).2.2).1 (hsame.trans hverdict) hpoised

/-- Operands that are asked about again after rivals of theirs. -/
theorem Independent.keepsShapes_of_staged [Operation α] {context : Context}
    (h : Independent [k] context) (w : World σ) {memory memory' : Bindings}
    (hrivals : k.Rivals Descriptors.Allocatable memory.descriptors memory'.descriptors)
    (hpoised : k.Poised memory.descriptors) (hstaged : k.Staged memory.descriptors) :
    k.KeepsShapes memory.descriptors := by
  obtain ⟨hne, hroute, hacc, hacc', hall, hall'⟩ := hrivals
  let fresh := ofCandidates ([k].map SteadyKernel.kernel) attrs constraints context
  have hserves : Serves [k] fresh := serves_ofCandidates [k] context
  have hundecided : ∀ ds, fresh.Undecided ds := undecided_ofCandidates _ context
  have hempty : fresh.slot? 0 = none := slot?_ofCandidates _ context 0
  obtain ⟨hverdict, hbuilt, hstill⟩ := hserves.update_of_empty hempty (hundecided _) hacc hall w
  by_cases hkeeps : k.KeepsShapes memory.descriptors
  · exact hkeeps
  · -- the operands are refused at first, so that no decision on them is remembered
    have hrefused : (fresh.update memory w).1 ≠ .ok true := by
      rw [hverdict, SteadyKernel.verdict_eq_false fun h => hkeeps h.1]
      simp
    have hundecided₁ := hstill _ (hundecided memory.descriptors) (.inr hrefused)
    obtain ⟨hbuilt', -, hstill'⟩ := hbuilt.update (hstill _ (hundecided _) (.inl hne.symm))
      hroute.symm hacc' hall' hacc hall (fresh.update memory w).2.2
    have hsame := congrArg Prod.fst (h [.update memory, .update memory']
      (fun c hc => by
        rcases List.mem_cons.1 hc with rfl | hc
        · exact hall
        · rw [List.mem_singleton.1 hc]
          exact hall') memory hall w w)
    exact ((hbuilt'.answer_eq_verdict_iff (hstill' _ hundecided₁ hne) rfl hacc hall hacc hall
      hne.symm _).1 (hsame.trans hverdict) hpoised).2 hstaged |>.1

/-- A candidate whose replies do not depend on the history is coherent. -/
theorem Independent.coherent [Operation α] {context : Context} (h : Independent [k] context)
    (w : World σ) : k.Coherent Descriptors.Allocatable := by
  intro ds ds' hrivals hpoised
  obtain ⟨memory, rfl⟩ : ∃ memory : Bindings, memory.descriptors = ds :=
    ⟨_, Bindings.descriptors_ofDescriptors ds⟩
  obtain ⟨memory', rfl⟩ : ∃ memory : Bindings, memory.descriptors = ds' :=
    ⟨_, Bindings.descriptors_ofDescriptors ds'⟩
  have hkeeps := h.keepsShapes_of_staged w hrivals hpoised
  have hiff := h.staged_iff w hrivals hpoised
  exact ⟨⟨fun hs => hiff.1 ⟨hkeeps hs, hs⟩, fun hs => (hiff.2 hs).2⟩, hkeeps⟩

/-- Take any stock of steady kernels. Replies are independent of the history for all lists of
    candidates from the stock and all sizes of the memory for decisions exactly if every kernel in
    the stock is coherent: of two sets of operands that it accepts and takes by one route, it can
    stage both or neither, and in their shapes if it can, unless it would refuse them in any
    case. -/
theorem independent_of_history_iff [Operation α] [Inhabited σ]
    (stock : SteadyKernel σ attrs constraints → Prop) :
    (∀ ks : List (SteadyKernel σ attrs constraints), (∀ k ∈ ks, stock k) →
        ∀ context, Independent ks context) ↔
      ∀ k, stock k → k.Coherent Descriptors.Allocatable := by
  constructor
  · intro h k hk
    have hlone : Independent [k] (.ofSettings default) :=
      h [k] (fun k' hk' => by rw [List.mem_singleton.1 hk']; exact hk) _
    exact hlone.coherent { store := ⟨#[]⟩, ambient := default, scratch := {} }
  · intro h ks hks context
    exact independent_of_coherent (fun k hk => h k (hks k hk)) context

/-! ## A candidate that refuses for good -/

/-- A kernel that would have the channels last whatever the operands are. -/
def eagerPacker : SteadyKernel Journal (⟨.zero⟩ : Scaling) ∅ :=
  Script.steady .single ⟨.zero⟩ ∅
    { name := "packer"
      preference := some { conditions := [], wish := .relaid fun _ _ => .channelsLast } }
    rfl rfl

/-- Matrices cannot be staged with the channels last. Images can, and a new dispatcher takes them;
    after an update to matrices it refuses them, since the candidate was left unbuilt then. -/
theorem reply_depends_on_history :
    let fresh := ofCandidates ([eagerPacker].map SteadyKernel.kernel) ⟨.zero⟩ ∅
      (.ofSettings default)
    let matrices := Script.matrixPair 2 3
    let images := Adapter.imagePair .planar 0 1
    matrices.Allocatable ∧ images.Allocatable ∧
      reply (after (fresh, Adapter.fourImages) [.update matrices]) images = (.ok false, none) ∧
      reply (fresh, Adapter.fourImages) images = (.ok true, some 0) :=
  ⟨(Descriptors.stageable_iff _).1 rfl, (Descriptors.stageable_iff _).1 rfl, rfl, rfl⟩

end Dispatcher

end KernelDispatch
