import KernelDispatch.Proofs.Adapter.Formats
import KernelDispatch.Proofs.Dispatch.Inquiries
import KernelDispatch.Proofs.Dispatch.Scripts

/-
  What is built lasts. A candidate that prefers the same element types and layouts in all calls of a
  history is built at most once, and is not to be built again after that (`built_once`), however
  many signatures come and go and whatever the candidates answer. The reason is that its slot, the
  decisions that are remembered for it and its present answers all agree on one route
  (`Dispatcher.Lasting`), so a slot that is filled is found again whenever the candidate is tried.
-/

namespace KernelDispatch

/-- Asked about operands with these descriptors, the kernel always prefers to be reached by the
    route. -/
def Kernel.KeepsTo {α σ : Type} (k : Kernel α σ) (attrs : α) (route : Route) (ds : Descriptors) :
    Prop :=
  ∀ s, Route.of (k.preferred attrs ds s).1 = route

/-! ## Logs -/

/-- In the log, the latest inquiry first, nobody asks for the candidate after it has been built. -/
def BuiltOnce (i : Nat) (log : List Inquiry) : Prop :=
  log.Pairwise fun later earlier => earlier.yields i = true → later.asksFor i = false

namespace Inquiry

theorem asksFor_of_yields {i : Nat} {q : Inquiry} (h : q.yields i = true) : q.asksFor i = true := by
  cases q with
  | build j b store failure =>
    cases failure with
    | none => exact h
    | some e => cases h
  | supports j => cases h
  | accepts j => cases h
  | preferred j => cases h

theorem asksFor_of_isPredicate {q : Inquiry} (h : q.isPredicate = true) (i : Nat) :
    q.asksFor i = false := by
  cases q <;> first | rfl | cases h

end Inquiry

theorem BuiltOnce.cons {i : Nat} {q : Inquiry} {log : List Inquiry} (h : BuiltOnce i log)
    (hq : q.asksFor i = true → ∀ q' ∈ log, q'.yields i = false) : BuiltOnce i (q :: log) := by
  refine List.pairwise_cons.2 ⟨fun q' hq' hyields => ?_, h⟩
  cases hasks : q.asksFor i with
  | false => rfl
  | true =>
    rw [hq hasks q' hq'] at hyields
    cases hyields

theorem BuiltOnce.countP_le {i : Nat} {log : List Inquiry} (h : BuiltOnce i log) :
    log.countP (·.yields i) ≤ 1 := by
  induction log with
  | nil => exact Nat.zero_le _
  | cons q log ih =>
    obtain ⟨hfirst, hlog⟩ := List.pairwise_cons.1 h
    by_cases hq : q.yields i = true
    · have hnone : ∀ q' ∈ log, ¬ q'.yields i = true := fun q' hq' hyields => by
        have hasks := hfirst q' hq' hyields
        rw [Inquiry.asksFor_of_yields hq] at hasks
        cases hasks
      have hcount : (q :: log).countP (·.yields i) = 1 := by
        rw [List.countP_cons_of_pos hq, List.countP_eq_zero.2 hnone, Nat.zero_add]
      exact Nat.le_of_eq hcount
    · rw [List.countP_cons_of_neg hq]
      exact ih hlog

namespace Dispatcher

open Inquired

variable {α σ : Type} {ks : List (Kernel α σ)} {attrs : α} {i : Nat} {route : Route}
  {d : Dispatcher α (Inquired σ)} {log : List Inquiry}

/-! ## One route -/

/-- Whatever is built of candidate `i` and remembered for it is on the route, and its slot is filled
    if it has been built. -/
structure Lasting (ks : List (Kernel α σ)) (attrs : α) (i : Nat) (route : Route)
    (d : Dispatcher α (Inquired σ)) (log : List Inquiry) : Prop extends Inquires ks attrs d where
  route_eq : ∀ slot, d.slot? i = some slot → slot.route = route
  remembers : ∀ e ∈ d.decisions.entries, e.2.index = i → e.2.route = route
  once : BuiltOnce i log
  unbuilt : d.slot? i = none → ∀ q ∈ log, q.yields i = false

theorem lasting_ofCandidates (ks : List (Kernel α σ)) (attrs : α) (i : Nat) (route : Route)
    (constraints : Constraints) (context : Context) :
    Lasting ks attrs i route (ofCandidates (kernels ks) attrs constraints context) [] := by
  refine ⟨inquires_ofCandidates ks attrs constraints context, fun slot hslot => ?_, ?_, .nil, ?_⟩
  · rw [slot?_ofCandidates] at hslot
    cases hslot
  · rintro e ⟨⟩
  · rintro - q ⟨⟩

/-- Questions other than requests to build the candidate change nothing. -/
theorem Lasting.asked (h : Lasting ks attrs i route d log) {q : Inquiry}
    (hq : q.asksFor i = false) : Lasting ks attrs i route d (q :: log) := by
  have honce : BuiltOnce i (q :: log) := h.once.cons fun hasks => by
    rw [hq] at hasks
    cases hasks
  refine ⟨h.toInquires, h.route_eq, h.remembers, honce, fun hnone => ?_⟩
  refine List.forall_mem_cons.2 ⟨?_, h.unbuilt hnone⟩
  cases hyields : q.yields i with
  | false => rfl
  | true =>
    rw [Inquiry.asksFor_of_yields hyields] at hq
    cases hq

theorem Lasting.setSlot (h : Lasting ks attrs i route d log) {j : Nat} {slot : Slot (Inquired σ)}
    (hsilent : slot.built.Has Runner.Silent) (hroute : j = i → slot.route = route) :
    Lasting ks attrs i route (d.setSlot j slot) log := by
  refine ⟨h.toInquires.setSlot j hsilent, fun slot' hslot' => ?_, h.remembers, h.once,
    fun hnone => h.unbuilt ?_⟩
  · rw [slot?_setSlot] at hslot'
    split at hslot'
    · rename_i hij
      cases hslot'
      exact hroute hij.1
    · exact h.route_eq slot' hslot'
  · rw [slot?_setSlot] at hnone
    split at hnone
    · cases hnone
    · exact hnone

/-- The candidate is built into its slot, which was empty. -/
theorem Lasting.built (h : Lasting ks attrs i route d log) {j : Nat} {k : Kernel α σ}
    (hk : ks[j]? = some k) (hempty : j = i → d.slot? i = none) {slot : Slot (Inquired σ)}
    (hsilent : slot.built.Has Runner.Silent) (hroute : j = i → slot.route = route) (b : Bindings)
    (store : Store) (failure : Option Failure) :
    Lasting ks attrs i route (d.setSlot j slot) (.build j b store failure :: log) := by
  have hset := h.setSlot hsilent hroute
  by_cases hji : j = i
  · subst hji
    refine ⟨hset.toInquires, hset.route_eq, hset.remembers,
      h.once.cons fun _ => h.unbuilt (hempty rfl), fun hnone => ?_⟩
    rw [h.toInquires.slot?_setSlot_self hk] at hnone
    cases hnone
  · exact hset.asked (by simpa [Inquiry.asksFor] using hji)

/-- A failed request leaves the slot empty. -/
theorem Lasting.notBuilt (h : Lasting ks attrs i route d log) {j : Nat}
    (hempty : j = i → d.slot? i = none) (b : Bindings) (store : Store) (e : Failure) :
    Lasting ks attrs i route d (.build j b store (some e) :: log) := by
  refine ⟨h.toInquires, h.route_eq, h.remembers, h.once.cons fun hasks => ?_, fun hnone => ?_⟩
  · exact h.unbuilt (hempty (by simpa [Inquiry.asksFor] using hasks))
  · exact List.forall_mem_cons.2 ⟨rfl, h.unbuilt hnone⟩

theorem Lasting.offer {w : World (Inquired σ)} (h : Lasting ks attrs i route d w.ambient.log)
    {j : Nat} {slot : Slot (Inquired σ)} (hslot : d.slot? j = some slot) (memory : Bindings) :
    Lasting ks attrs i route (d.offer j slot memory w).2.1
      (d.offer j slot memory w).2.2.ambient.log := by
  have hsilent := h.silent j slot hslot
  show Lasting ks attrs i route _ (slot.built.update memory w).2.2.ambient.log
  rw [update_log hsilent]
  refine h.setSlot (hsilent.update memory w) fun hji => h.route_eq slot ?_
  rw [← hji]
  exact hslot

/-- A candidate whose slot is empty is built and then offered the operands. -/
theorem Lasting.offerAnew {w : World (Inquired σ)} (h : Lasting ks attrs i route d w.ambient.log)
    {j : Nat} {k : Kernel α σ} (hk : ks[j]? = some k) (hempty : j = i → d.slot? i = none)
    {preferred : Option Descriptors} (hroute : j = i → Route.of preferred = route)
    (memory : Bindings) :
    Lasting ks attrs i route (d.offerAnew j (kernel j k) preferred memory w).2.1
      (d.offerAnew j (kernel j k) preferred memory w).2.2.ambient.log := by
  unfold Dispatcher.offerAnew
  rcases hbuild : Instance.build (kernel j k) d.attrs memory.descriptors preferred memory w with
    ⟨e | built, w₁⟩
  · obtain ⟨-, hlog | ⟨b, store, failure, hlog, hfails⟩⟩ := build_log hbuild
    · show Lasting ks attrs i route d w₁.ambient.log
      rw [hlog]
      exact h
    · obtain ⟨cause, rfl⟩ := Option.isSome_iff_exists.1 (hfails e rfl)
      show Lasting ks attrs i route d w₁.ambient.log
      rw [hlog]
      exact h.notBuilt hempty b store cause
  · obtain ⟨hbuilt, hlog⟩ := build_log hbuild
    have hsilent := hbuilt built rfl
    show Lasting ks attrs i route _ (built.update memory w₁).2.2.ambient.log
    rw [update_log hsilent]
    rcases hlog with hlog | ⟨b, store, failure, hlog, -⟩
    · rw [hlog]
      exact h.setSlot (hsilent.update memory w₁) hroute
    · rw [hlog]
      exact h.built hk hempty (hsilent.update memory w₁) hroute b store failure

/-! ## Calls -/

theorem Lasting.trySelect {w : World (Inquired σ)} (h : Lasting ks attrs i route d w.ambient.log)
    {j : Nat} {k : Kernel α σ} (hk : ks[j]? = some k) {memory : Bindings}
    (hkeeps : j = i → k.KeepsTo attrs route memory.descriptors) {r : Route}
    (hr : j = i → r = route) (known : Option (Option Descriptors))
    (hknown : ∀ preferred, known = some preferred → j = i → Route.of preferred = route) :
    Lasting ks attrs i route (d.trySelect j (kernel j k) r known memory w).2.1
      (d.trySelect j (kernel j k) r known memory w).2.2.ambient.log := by
  rcases d.trySelect_cases j (kernel j k) r known memory w with
    ⟨slot, hslot, -, htry⟩ | ⟨hother, htry⟩
  · rw [htry]
    exact h.offer hslot memory
  · rw [htry]
    have hempty : j = i → d.slot? i = none := by
      rintro rfl
      refine Option.eq_none_iff_forall_ne_some.2 fun slot hslot => ?_
      exact hother slot hslot ((h.route_eq slot hslot).trans (hr rfl).symm)
    cases known with
    | some preferred => exact h.offerAnew hk hempty (hknown preferred rfl) memory
    | none =>
      have hasked : Lasting ks attrs i route d
          (w.run ((kernel j k).preferred d.attrs memory.descriptors)).2.ambient.log := by
        rw [preferred_log]
        exact h.asked rfl
      refine hasked.offerAnew hk hempty (fun hji => ?_) memory
      show Route.of (k.preferred d.attrs memory.descriptors _).1 = route
      rw [h.attrs_eq]
      exact hkeeps hji _

/-- A turn of a candidate in a walk keeps to the one route. -/
theorem Lasting.turn {w : World (Inquired σ)} (h : Lasting ks attrs i route d w.ambient.log)
    {j : Nat} {k : Kernel α σ} (hk : ks[j]? = some k) {memory : Bindings}
    (hkeeps : j = i → k.KeepsTo attrs route memory.descriptors) :
    let t := d.turn j (kernel j k) memory w
    Lasting ks attrs i route t.2.2.1 t.2.2.2.ambient.log ∧
      (t.2.1 = .ok true → j = i → t.1 = route) := by
  obtain ⟨q, new, hlog, hq, hnew⟩ := passes_log d j k memory w
  have hpassed : Lasting ks attrs i route d
      (d.passes (kernel j k) memory w).2.ambient.log := by
    rw [hlog]
    have hfirst := h.asked (Inquiry.asksFor_of_isPredicate hq i)
    clear hlog
    induction new with
    | nil => exact hfirst
    | cons q' new ih =>
      obtain ⟨hq', hnew⟩ := List.forall_mem_cons.1 hnew
      exact (ih hnew).asked (Inquiry.asksFor_of_isPredicate hq' i)
  unfold Dispatcher.turn
  rcases hp : d.passes (kernel j k) memory w with ⟨_ | _, w₁⟩ <;> rw [hp] at hpassed
  · exact ⟨hpassed, fun hanswer => by cases hanswer⟩
  · have hasked : Lasting ks attrs i route d
        (w₁.run ((kernel j k).preferred d.attrs memory.descriptors)).2.ambient.log := by
      rw [preferred_log]
      exact hpassed.asked rfl
    have hroute : j = i → Route.of
        (w₁.run ((kernel j k).preferred d.attrs memory.descriptors)).1 = route := fun hji => by
      rw [h.attrs_eq]
      exact hkeeps hji _
    refine ⟨hasked.trySelect hk hkeeps hroute _ fun preferred hknown hji => ?_, fun _ => hroute⟩
    cases hknown
    exact hroute hji

/-- Other decisions are remembered, none of them for another route of the candidate. -/
theorem Lasting.withDecisions (h : Lasting ks attrs i route d log)
    {decisions : Recency Signature Choice}
    (hd : ∀ e ∈ decisions.entries, e.2.index = i → e.2.route = route)
    (resolved : Option (Signature × Nat)) :
    Lasting ks attrs i route { d with decisions, resolved } log :=
  ⟨h.toInquires.withDecisions decisions resolved, h.route_eq, hd, h.once, h.unbuilt⟩

theorem Lasting.walkAll {w : World (Inquired σ)} (h : Lasting ks attrs i route d w.ambient.log)
    {memory : Bindings}
    (hkeeps : ∀ k, ks[i]? = some k → k.KeepsTo attrs route memory.descriptors) :
    Lasting ks attrs i route (d.walkAll memory w).2.1 (d.walkAll memory w).2.2.ambient.log := by
  have hturns : ∀ e ∈ d.candidates.zipIdx, ∀ (d : Dispatcher α (Inquired σ)) w,
      Lasting ks attrs i route d w.ambient.log → let t := d.turn e.2 e.1 memory w
        Lasting ks attrs i route t.2.2.1 t.2.2.2.ambient.log := fun e he d w hw => by
    obtain ⟨k, hk, hek⟩ := h.of_mem_zipIdx he
    rw [hek]
    exact (hw.turn hk fun hji => hkeeps k (hji ▸ hk)).1
  unfold Dispatcher.walkAll
  rcases walk_ends (fun _ _ => id) hturns h with
    ⟨-, hwalk⟩ | ⟨-, hwalk⟩ | ⟨e, he, d₁, w₁, r, d₂, w₂, h₁, hturn, hwalk⟩
  · rw [hwalk]
    exact h
  · exact hwalk
  · obtain ⟨k, hk, hek⟩ := h.of_mem_zipIdx he
    have hlasts := h₁.turn hk fun hji => hkeeps k (hji ▸ hk)
    rw [← hek, hturn] at hlasts
    rw [hwalk]
    refine hlasts.1.withDecisions (fun e' he' heq => ?_) _
    rcases Recency.mem_of_store he' with rfl | he'
    · exact hlasts.2 rfl heq
    · exact hlasts.1.remembers e' he' heq

theorem Lasting.resolve {w : World (Inquired σ)} (h : Lasting ks attrs i route d w.ambient.log)
    {memory : Bindings}
    (hkeeps : ∀ k, ks[i]? = some k → k.KeepsTo attrs route memory.descriptors) :
    Lasting ks attrs i route (d.resolve memory w).2.1 (d.resolve memory w).2.2.ambient.log := by
  unfold Dispatcher.resolve
  dsimp only
  cases huse : d.decisions.use? memory.descriptors with
  | none => exact (h.withDecisions h.remembers none).walkAll hkeeps
  | some found =>
    obtain ⟨choice, decisions⟩ := found
    obtain ⟨hmem, hsub⟩ := Recency.mem_of_use? huse
    have h₁ : Lasting ks attrs i route { d with decisions, resolved := none } w.ambient.log :=
      h.withDecisions (fun e he => h.remembers e (hsub e he)) none
    dsimp only
    cases hk : d.candidates[choice.index]? with
    | none => exact h₁.walkAll hkeeps
    | some k =>
      obtain ⟨k', hk', rfl⟩ := h.getElem? hk
      have htried := h₁.trySelect hk' (fun hji => hkeeps k' (hji ▸ hk'))
        (h.remembers _ hmem) none nofun
      dsimp only
      rcases htry : Dispatcher.trySelect { d with decisions, resolved := none } choice.index
        (kernel choice.index k') choice.route none memory w with ⟨_ | _ | _, d₂, w₂⟩ <;>
        rw [htry] at htried
      · exact htried
      · refine (htried.withDecisions (fun e he => ?_) d₂.resolved).walkAll hkeeps
        exact htried.remembers e (Recency.mem_without he)
      · exact htried.withDecisions htried.remembers _

/-- An update keeps the candidate to its one route. -/
theorem Lasting.update {w : World (Inquired σ)} (h : Lasting ks attrs i route d w.ambient.log)
    {memory : Bindings}
    (hkeeps : ∀ k, ks[i]? = some k → k.KeepsTo attrs route memory.descriptors) :
    Lasting ks attrs i route (d.update memory w).2.1 (d.update memory w).2.2.ambient.log := by
  unfold Dispatcher.update
  cases hcurrent : d.current? memory with
  | none => exact h.resolve hkeeps
  | some found =>
    obtain ⟨j, slot⟩ := found
    exact h.offer (current?_eq_some hcurrent).2 memory

theorem Lasting.execute [Operation α] {w : World (Inquired σ)}
    (h : Lasting ks attrs i route d w.ambient.log) {memory : Bindings}
    (hkeeps : ∀ k, ks[i]? = some k → k.KeepsTo attrs route memory.descriptors) :
    Lasting ks attrs i route (d.execute memory w).2.1 (d.execute memory w).2.2.ambient.log := by
  have hupdate := h.update hkeeps
  unfold Dispatcher.execute
  rcases hu : d.update memory w with ⟨_ | _ | _, d', w'⟩ <;> rw [hu] at hupdate
  · exact hupdate
  · exact hupdate
  · cases hselected : d'.selected? with
    | none => simpa only [hselected] using hupdate
    | some slot =>
      obtain ⟨j, -, hslot⟩ := Option.bind_eq_some_iff.1 hselected
      simp only [hselected]
      show Lasting ks attrs i route d' (slot.built.execute memory w').2.ambient.log
      rw [execute_log (hupdate.silent j slot hslot)]
      exact hupdate

/-- Along a history in whose calls the candidate prefers one route it keeps to this route. -/
theorem Lasting.after [Operation α] {calls : List (Call σ)}
    {s : Dispatcher α (Inquired σ) × World (Inquired σ)}
    (h : Lasting ks attrs i route s.1 s.2.ambient.log)
    (hkeeps : ∀ c ∈ calls, ∀ memory, c.operands? = some memory → ∀ k, ks[i]? = some k →
      k.KeepsTo attrs route memory.descriptors) :
    Lasting ks attrs i route (after s (calls.map call)).1
      (after s (calls.map call)).2.ambient.log := by
  induction calls generalizing s with
  | nil => exact h
  | cons c calls ih =>
    obtain ⟨hfirst, hrest⟩ := List.forall_mem_cons.1 hkeeps
    refine ih (s := perform s (call c)) ?_ hrest
    cases c with
    | update memory => exact h.update (hfirst memory rfl)
    | execute memory => exact h.execute (hfirst memory rfl)
    | elsewhere change => exact h

/-- For all candidates, whatever they answer, in all worlds and over all histories: a candidate that
    prefers the same route for the operands of every call is built successfully once at most, and
    after that it is never asked for again. -/
theorem built_once [Operation α] {ks : List (Kernel α σ)} {i : Nat} {k : Kernel α σ}
    (hk : ks[i]? = some k) {attrs : α} {route : Route} {calls : List (Call σ)}
    (hkeeps : ∀ c ∈ calls, ∀ memory, c.operands? = some memory →
      k.KeepsTo attrs route memory.descriptors)
    (constraints : Constraints) (context : Context) (w : World σ) :
    let d := ofCandidates (kernels ks) attrs constraints context
    let log := (after (d, start w) (calls.map call)).2.ambient.log
    log.countP (·.yields i) ≤ 1 ∧
      ∀ later q earlier, log = later ++ q :: earlier → q.yields i = true →
        ∀ q' ∈ later, q'.asksFor i = false := by
  intro d log
  have hlasts : Lasting ks attrs i route (after (d, start w) (calls.map call)).1 log := by
    refine Lasting.after (s := (d, start w))
      (lasting_ofCandidates ks attrs i route constraints context) fun c hc memory hm k' hk' => ?_
    rw [hk] at hk'
    cases hk'
    exact hkeeps c hc memory hm
  refine ⟨hlasts.once.countP_le, fun later q earlier hlog hq q' hq' => ?_⟩
  have honce : BuiltOnce i (later ++ q :: earlier) := hlog ▸ hlasts.once
  exact (List.pairwise_append.1 honce).2.2 q' hq' q List.mem_cons_self hq

/-- A kernel that wants the channels last and refuses to be built at first. -/
def latePacker : Kernel Scaling Journal :=
  Script.kernel .single
    { name := "packer"
      preference := some { wish := .relaid fun _ _ => .channelsLast }
      builds := [.refused] }

/-- Calls with the same images in two layouts of the source. -/
def packerCalls : List (Call Journal) :=
  [.update (Adapter.imagePair .planar 0 1), .update (Adapter.imagePair .planar 0 1),
    .execute (Adapter.imagePair .channelsLast 2 3), .update (Adapter.imagePair .planar 0 1),
    .execute (Adapter.imagePair .channelsLast 2 3)]

/-- The first request fails and the second one succeeds. With room for one decision the two layouts
    displace each other, and still the kernel is not built again. -/
theorem latePacker_built_once :
    let d := ofCandidates (kernels [latePacker]) ⟨.zero⟩ ∅ (.ofSettings { cacheSize := 1 })
    let log := (after (d, start Adapter.fourImages) (packerCalls.map call)).2.ambient.log
    log.countP (·.asksFor 0) = 2 ∧ log.countP (·.yields 0) = 1 ∧
      ∀ later q earlier, log = later ++ q :: earlier → q.yields 0 = true →
        ∀ q' ∈ later, q'.asksFor 0 = false := by
  have hkeeps : ∀ c ∈ packerCalls, ∀ memory, c.operands? = some memory →
      latePacker.KeepsTo ⟨.zero⟩ (some Adapter.channelsLastPair.formats) memory.descriptors := by
    intro c hc memory hm s
    simp only [packerCalls, List.mem_cons, List.not_mem_nil, or_false] at hc
    rcases hc with rfl | rfl | rfl | rfl | rfl <;> cases hm <;> rfl
  have hfirst : [latePacker][0]? = some latePacker := rfl
  refine ⟨by decide +kernel, by decide +kernel, ?_⟩
  exact (built_once hfirst hkeeps ∅ (.ofSettings { cacheSize := 1 }) Adapter.fourImages).2

end Dispatcher

end KernelDispatch
