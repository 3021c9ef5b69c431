import KernelDispatch.Proofs.Dispatch.Choose
import KernelDispatch.Proofs.Histories

/-
  Dispatchers over steady candidates. A dispatcher keeps to the walk by responses as long as what
  is built, what is remembered and what is in force agree with it (`Dispatcher.Ready`). Every call
  preserves this if the candidates are coherent (`Ready.update`), so that after any history the
  reply to an update is that of the walk (`reply_after`).
-/

namespace KernelDispatch

namespace Recency

variable {κ α : Type} [DecidableEq κ]

/-! ## Entries of a bounded memory -/

theorem mem_without {k : κ} {e : κ × α} {es : List (κ × α)} (h : e ∈ without k es) : e ∈ es :=
  (List.mem_filter.1 h).1

theorem mem_of_use? {r r' : Recency κ α} {k : κ} {v : α} (h : r.use? k = some (v, r')) :
    (k, v) ∈ r.entries ∧ ∀ e ∈ r'.entries, e ∈ r.entries := by
  simp only [use?, Option.map_eq_some_iff] at h
  obtain ⟨⟨k', v'⟩, hfind, heq⟩ := h
  cases heq
  have hmem := List.mem_of_find?_eq_some hfind
  have hkey : k' = k := by simpa using List.find?_some hfind
  rw [hkey] at hmem
  refine ⟨hmem, fun e he => ?_⟩
  rcases List.mem_cons.1 he with rfl | he
  · rw [hkey]; exact hmem
  · exact mem_without he

theorem use?_eq_none {r : Recency κ α} {k : κ} (h : ∀ e ∈ r.entries, e.1 ≠ k) :
    r.use? k = none := by
  simp only [use?, Option.map_eq_none_iff, List.find?_eq_none, decide_eq_true_eq]
  exact h

theorem mem_of_store {r : Recency κ α} {k : κ} {v : α} {e : κ × α}
    (h : e ∈ (r.store k v).entries) : e = (k, v) ∨ e ∈ r.entries := by
  rcases List.mem_cons.1 (List.mem_of_mem_take h) with h | h
  · exact .inl h
  · exact .inr (mem_without h)

end Recency

namespace SteadyKernel

variable {α σ : Type} {attrs : α} {constraints : Constraints}

/-- A slot with something that was built of the kernel for operands that it accepted. -/
def Keeps (k : SteadyKernel σ attrs constraints) (P : Descriptors → Prop) (slot : Slot σ) : Prop :=
  ∃ origin, P origin ∧ k.accepts origin = true ∧ slot.route = k.route origin ∧
    k.Describes P origin slot.built

end SteadyKernel

namespace Dispatcher

variable {α σ : Type} {attrs : α} {constraints : Constraints}

/-! ## Agreement with the walk -/

/-- The decision for a signature is that of the walk, by the route that the candidate takes. -/
structure Remembers (ks : List (SteadyKernel σ attrs constraints)) (P : Descriptors → Prop)
    (e : Signature × Choice) : Prop where
  within : P e.1
  chosen : SteadyKernel.choose e.1 ks 0 = .ok (some e.2.index)
  route_eq : ∀ k, ks[e.2.index]? = some k → e.2.route = k.route e.1

/-- The dispatcher serves the candidates, with a slot for each of them. -/
structure Serves (ks : List (SteadyKernel σ attrs constraints)) (d : Dispatcher α σ) : Prop where
  attrs_eq : d.attrs = attrs
  constraints_eq : d.constraints = constraints
  candidates_eq : d.candidates = ks.map SteadyKernel.kernel
  length_slots : d.slots.length = ks.length

/-- What is built is built of the candidates, and what is remembered is what the walk chooses. -/
structure Sound (ks : List (SteadyKernel σ attrs constraints)) (P : Descriptors → Prop)
    (d : Dispatcher α σ) : Prop extends Serves ks d where
  keeps : ∀ i k slot, ks[i]? = some k → d.slot? i = some slot → k.Keeps P slot
  remembers : ∀ e ∈ d.decisions.entries, Remembers ks P e

/-- The slot of a candidate is built for the route that the signature takes. -/
def Holds (ks : List (SteadyKernel σ attrs constraints)) (d : Dispatcher α σ) (ds : Descriptors)
    (i : Nat) : Prop :=
  ∃ k slot, ks[i]? = some k ∧ d.slot? i = some slot ∧ slot.route = k.route ds

/-- The candidate in force is the one that the walk chooses for the signature in force. -/
structure Ready (ks : List (SteadyKernel σ attrs constraints)) (P : Descriptors → Prop)
    (d : Dispatcher α σ) : Prop where
  sound : d.Sound ks P
  inForce : ∀ ds i, d.resolved = some (ds, i) →
    P ds ∧ SteadyKernel.choose ds ks 0 = .ok (some i) ∧ d.Holds ks ds i

/-- The result of a call for `ds` when the walk chooses `c`. -/
structure Follows (ks : List (SteadyKernel σ attrs constraints)) (P : Descriptors → Prop)
    (ds : Descriptors) (c : Except Error (Option Nat))
    (r : Except Error Bool × Dispatcher α σ × World σ) : Prop where
  answer : r.1 = c.map Option.isSome
  sound : r.2.1.Sound ks P
  resolved : r.2.1.resolved = c.toOption.join.map fun i => (ds, i)
  holds : ∀ i, c = .ok (some i) → r.2.1.Holds ks ds i

theorem serves_ofCandidates (ks : List (SteadyKernel σ attrs constraints)) (context : Context) :
    Serves ks (ofCandidates (ks.map SteadyKernel.kernel) attrs constraints context) :=
  ⟨rfl, rfl, rfl, by simp [ofCandidates]⟩

theorem slot?_ofCandidates (candidates : List (Kernel α σ)) (context : Context) (i : Nat) :
    (ofCandidates candidates attrs constraints context).slot? i = none := by
  simp only [slot?, ofCandidates, List.getElem?_map]
  cases candidates[i]? <;> rfl

theorem ready_ofCandidates (ks : List (SteadyKernel σ attrs constraints)) (P : Descriptors → Prop)
    (context : Context) :
    (ofCandidates (ks.map SteadyKernel.kernel) attrs constraints context).Ready ks P := by
  refine ⟨⟨serves_ofCandidates ks context, fun i k slot _ hslot => ?_, ?_⟩,
    fun ds i h => by cases h⟩
  · rw [slot?_ofCandidates] at hslot
    cases hslot
  · rintro e ⟨⟩

variable {ks : List (SteadyKernel σ attrs constraints)} {P : Descriptors → Prop}

theorem Follows.ready {ds : Descriptors} {r : Except Error Bool × Dispatcher α σ × World σ}
    (h : Follows ks P ds (SteadyKernel.choose ds ks 0) r) (hp : P ds) : r.2.1.Ready ks P := by
  refine ⟨h.sound, fun ds' i hres => ?_⟩
  rw [h.resolved] at hres
  cases hc : SteadyKernel.choose ds ks 0 with
  | error e => simp [hc, Except.toOption] at hres
  | ok o =>
    cases o with
    | none => simp [hc, Except.toOption] at hres
    | some j =>
      simp only [hc, Except.toOption, Option.join_some, Option.map_some, Option.some.injEq,
        Prod.mk.injEq] at hres
      obtain ⟨rfl, rfl⟩ := hres
      exact ⟨hp, hc, h.holds j hc⟩

/-! ## Slots -/

theorem slot?_setSlot (d : Dispatcher α σ) (i j : Nat) (slot : Slot σ) :
    (d.setSlot i slot).slot? j =
      if i = j ∧ i < d.slots.length then some slot else d.slot? j := by
  unfold slot? setSlot
  rw [List.getElem?_set]
  by_cases hij : i = j
  · subst hij
    by_cases hlt : i < d.slots.length <;> simp [hlt]
  · simp [hij]

theorem Serves.slot?_setSlot_self {d : Dispatcher α σ} (h : Serves ks d) {i : Nat}
    {k : SteadyKernel σ attrs constraints} (hk : ks[i]? = some k) (slot : Slot σ) :
    (d.setSlot i slot).slot? i = some slot := by
  have hlt : i < d.slots.length := by
    rw [h.length_slots]
    exact (List.getElem?_eq_some_iff.1 hk).1
  rw [slot?_setSlot, if_pos ⟨rfl, hlt⟩]

theorem Serves.setSlot {d : Dispatcher α σ} (h : Serves ks d) (i : Nat) (slot : Slot σ) :
    Serves ks (d.setSlot i slot) :=
  ⟨h.attrs_eq, h.constraints_eq, h.candidates_eq, List.length_set.trans h.length_slots⟩

theorem Sound.setSlot {d : Dispatcher α σ} (h : d.Sound ks P) {i : Nat}
    {k : SteadyKernel σ attrs constraints} (hk : ks[i]? = some k) {slot : Slot σ}
    (hslot : k.Keeps P slot) : (d.setSlot i slot).Sound ks P := by
  refine ⟨h.toServes.setSlot i slot, fun j k' slot' hk' hslot' => ?_, h.remembers⟩
  rw [slot?_setSlot] at hslot'
  split at hslot'
  · rename_i hij
    obtain ⟨rfl, -⟩ := hij
    rw [hk] at hk'
    cases hk'
    cases hslot'
    exact hslot
  · exact h.keeps j k' slot' hk' hslot'

theorem Sound.withDecisions {d : Dispatcher α σ} (h : d.Sound ks P)
    {decisions : Recency Signature Choice} (hd : ∀ e ∈ decisions.entries, Remembers ks P e)
    (resolved : Option (Signature × Nat)) :
    Sound ks P { d with decisions, resolved } :=
  ⟨⟨h.attrs_eq, h.constraints_eq, h.candidates_eq, h.length_slots⟩, h.keeps, hd⟩

/-! ## Asking one candidate -/

theorem Serves.passes {d : Dispatcher α σ} (h : Serves ks d)
    (k : SteadyKernel σ attrs constraints) (memory : Bindings) (w : World σ) :
    ∃ w', d.passes k.kernel memory w = (k.accepts memory.descriptors, w') := by
  unfold Dispatcher.passes SteadyKernel.accepts
  rw [h.attrs_eq, h.constraints_eq, World.run]
  have hsupports := k.supports_eq memory.descriptors w.toSession
  cases hs : k.supports memory.descriptors with
  | false =>
    rw [hs] at hsupports
    simp only [hsupports, Bool.false_and]
    exact ⟨_, rfl⟩
  | true =>
    rw [hs] at hsupports
    simp only [hsupports, Bool.true_and, World.run, k.acceptsShapes_eq]
    exact ⟨_, rfl⟩

/-- A candidate is offered the operands by a slot on their route: the one that is there, or one with
    a newly built kernel if there is none. -/
theorem Serves.trySelect_eq_offer {d : Dispatcher α σ} (h : Serves ks d) (i : Nat)
    (k : SteadyKernel σ attrs constraints) (P : Descriptors → Prop) (memory : Bindings)
    (preferred : Option (Option Descriptors))
    (hpref : ∀ known, preferred = some known → known = k.preferred memory.descriptors)
    (w : World σ) : ∃ slot w',
      d.trySelect i k.kernel (k.route memory.descriptors) preferred memory w =
        d.offer i slot memory w' ∧ slot.route = k.route memory.descriptors ∧
      (d.slot? i = some slot ∨ k.NewlyBuilt P memory.descriptors slot.built ∧
        ∀ kept, d.slot? i = some kept → kept.route ≠ k.route memory.descriptors) := by
  unfold Dispatcher.trySelect
  cases hslot : (d.slot? i).filter fun slot => slot.route = k.route memory.descriptors with
  | some slot =>
    simp only [Option.filter_eq_some_iff, decide_eq_true_eq] at hslot
    exact ⟨slot, w, rfl, hslot.2, .inl hslot.1⟩
  | none =>
    have hother : ∀ kept, d.slot? i = some kept → kept.route ≠ k.route memory.descriptors := by
      simpa only [Option.filter_eq_none_iff, decide_eq_true_eq] using hslot
    -- what the kernel prefers is known or asked for; it is the same answer
    cases preferred with
    | some known =>
      obtain ⟨built, w₂, hbuild, hnew⟩ := k.build_newlyBuilt P memory w
      refine ⟨⟨k.route memory.descriptors, built⟩, w₂, ?_, rfl, .inr ⟨hnew, hother⟩⟩
      simp only [hpref known rfl, h.attrs_eq, hbuild]
      rfl
    | none =>
      obtain ⟨built, w₂, hbuild, hnew⟩ := k.build_newlyBuilt P memory
        (w.run (k.kernel.preferred attrs memory.descriptors)).2
      have hasked : w.run (k.kernel.preferred attrs memory.descriptors) =
          (k.preferred memory.descriptors,
            (w.run (k.kernel.preferred attrs memory.descriptors)).2) := by
        rw [← k.preferred_eq memory.descriptors w.toSession]
        rfl
      refine ⟨⟨k.route memory.descriptors, built⟩, w₂, ?_, rfl, .inr ⟨hnew, hother⟩⟩
      rw [h.attrs_eq, hasked]
      simp only [hbuild]
      rfl

/-- A slot on the right route gives the verdict and stays on the route. -/
theorem offer_eq_verdict (d : Dispatcher α σ) (i : Nat) {k : SteadyKernel σ attrs constraints}
    (hc : k.Coherent P) {slot : Slot σ} (hslot : k.Keeps P slot) {memory : Bindings}
    (hroute : slot.route = k.route memory.descriptors)
    (hacc : k.accepts memory.descriptors = true) (hp : P memory.descriptors) (w : World σ) :
    ∃ slot' w', d.offer i slot memory w = (k.verdict memory.descriptors, d.setSlot i slot', w') ∧
      k.Keeps P slot' ∧ slot'.route = k.route memory.descriptors := by
  obtain ⟨origin, hop, ho, horigin, hdesc⟩ := hslot
  have hsame : k.route memory.descriptors = k.route origin := hroute.symm.trans horigin
  have hanswer := hdesc.answer hc ho hop hsame hacc hp w
  have hkept := hdesc.update ho hop hsame hacc hp w
  refine ⟨{ slot with built := (slot.built.update memory w).2.1 },
    (slot.built.update memory w).2.2, ?_, ⟨origin, hop, ho, horigin, hkept⟩, hroute⟩
  rw [← hanswer]
  rfl

/-- A candidate that accepts the operands gives its verdict on them, whatever has been built of it
    before. -/
theorem Sound.trySelect {d : Dispatcher α σ} (h : d.Sound ks P) {i : Nat}
    {k : SteadyKernel σ attrs constraints} (hk : ks[i]? = some k) (hc : k.Coherent P)
    {memory : Bindings} (hacc : k.accepts memory.descriptors = true) (hp : P memory.descriptors)
    (preferred : Option (Option Descriptors))
    (hpref : ∀ known, preferred = some known → known = k.preferred memory.descriptors)
    (w : World σ) : ∃ slot w',
      d.trySelect i k.kernel (k.route memory.descriptors) preferred memory w =
        (k.verdict memory.descriptors, d.setSlot i slot, w') ∧
      k.Keeps P slot ∧ slot.route = k.route memory.descriptors := by
  obtain ⟨slot, w', htry, hroute, hslot⟩ :=
    h.toServes.trySelect_eq_offer i k P memory preferred hpref w
  rw [htry]
  refine d.offer_eq_verdict i hc ?_ hroute hacc hp w'
  rcases hslot with hslot | ⟨hnew, -⟩
  · exact h.keeps i k slot hk hslot
  · exact ⟨memory.descriptors, hp, hacc, hroute, hnew.describes⟩

/-! ## Whole calls -/

/-- A walk after a candidate has been tried: it ends with an error or with the candidate in force,
    or the rest is walked. -/
def goOn (memory : Bindings) (choice : Choice) (rest : List (Kernel α σ × Nat)) :
    Except Error Bool × Dispatcher α σ × World σ → Except Error Bool × Dispatcher α σ × World σ
  | (.error e, d, w) => (.error e, d, w)
  | (.ok false, d, w) => walk memory rest d w
  | (.ok true, d, w) =>
    (.ok true,
      { d with
        decisions := d.decisions.store memory.descriptors choice
        resolved := some (memory.descriptors, choice.index) }, w)

theorem Serves.walk_of_not_accepts {d : Dispatcher α σ} (h : Serves ks d)
    {k : SteadyKernel σ attrs constraints} {memory : Bindings}
    (hacc : k.accepts memory.descriptors = false) (i : Nat) (rest : List (Kernel α σ × Nat))
    (w : World σ) :
    ∃ w₁, walk memory ((k.kernel, i) :: rest) d w = walk memory rest d w₁ := by
  obtain ⟨w₁, hpasses⟩ := h.passes k memory w
  refine ⟨w₁, ?_⟩
  rw [Dispatcher.walk, hpasses, hacc]

theorem Serves.walk_of_accepts {d : Dispatcher α σ} (h : Serves ks d)
    {k : SteadyKernel σ attrs constraints} {memory : Bindings}
    (hacc : k.accepts memory.descriptors = true) (i : Nat) (rest : List (Kernel α σ × Nat))
    (w : World σ) :
    ∃ w₁, walk memory ((k.kernel, i) :: rest) d w =
      goOn memory ⟨i, k.route memory.descriptors⟩ rest
        (d.trySelect i k.kernel (k.route memory.descriptors)
          (some (k.preferred memory.descriptors)) memory w₁) := by
  obtain ⟨w₁, hpasses⟩ := h.passes k memory w
  have hpref : (w₁.run (k.kernel.preferred d.attrs memory.descriptors)).1 =
      k.preferred memory.descriptors := by
    rw [h.attrs_eq]
    exact k.preferred_eq _ _
  refine ⟨(w₁.run (k.kernel.preferred d.attrs memory.descriptors)).2, ?_⟩
  rw [Dispatcher.walk, hpasses, hacc]
  dsimp only
  rw [hpref]
  rfl

/-- The candidate that takes the operands is in force, and the decision for it is remembered. -/
theorem Sound.follows_taken {d : Dispatcher α σ} (h : d.Sound ks P) {n : Nat}
    {k : SteadyKernel σ attrs constraints} (hk : ks[n]? = some k) {ds : Descriptors} (hp : P ds)
    (hchosen : SteadyKernel.choose ds ks 0 = .ok (some n)) {slot : Slot σ}
    (hslot : d.slot? n = some slot) (hroute : slot.route = k.route ds) (w : World σ) :
    Follows ks P ds (.ok (some n)) (.ok true,
      { d with
        decisions := d.decisions.store ds ⟨n, k.route ds⟩
        resolved := some (ds, n) }, w) := by
  refine ⟨rfl, h.withDecisions (fun e he => ?_) _, rfl, fun i hi => ?_⟩
  · rcases Recency.mem_of_store he with rfl | he
    · refine ⟨hp, hchosen, fun k' hk' => ?_⟩
      rw [hk] at hk'
      cases hk'
      rfl
    · exact h.remembers e he
  · cases hi
    exact ⟨k, slot, hk, hslot, hroute⟩

/-- The candidates from place `n` on are walked as the walk by responses does. -/
theorem Sound.walk {d : Dispatcher α σ} (h : d.Sound ks P) (hres : d.resolved = none)
    (hks : ∀ k ∈ ks, k.Coherent P) {memory : Bindings} (hp : P memory.descriptors)
    (rest : List (SteadyKernel σ attrs constraints)) (n : Nat) (hrest : ks.drop n = rest)
    (hchoose : SteadyKernel.choose memory.descriptors ks 0 =
      SteadyKernel.choose memory.descriptors rest n) (w : World σ) :
    Follows ks P memory.descriptors (SteadyKernel.choose memory.descriptors ks 0)
      (Dispatcher.walk memory ((rest.map SteadyKernel.kernel).zipIdx n) d w) := by
  induction rest generalizing d n w with
  | nil =>
    rw [hchoose]
    exact ⟨rfl, h, hres, fun i hi => by cases hi⟩
  | cons k rest ih =>
    have hk : ks[n]? = some k := by rw [← List.head?_drop, hrest]; rfl
    have hrest' : ks.drop (n + 1) = rest := by rw [← List.tail_drop, hrest]; rfl
    rw [List.map_cons, List.zipIdx_cons]
    cases hacc : k.accepts memory.descriptors with
    | false =>
      obtain ⟨w₁, hwalk⟩ := h.walk_of_not_accepts hacc n _ w
      rw [hwalk]
      refine ih h hres (n + 1) hrest' ?_ w₁
      rw [hchoose]
      simp only [SteadyKernel.choose, SteadyKernel.response, hacc]
      rfl
    | true =>
      have hresponse : k.response memory.descriptors = k.verdict memory.descriptors := if_pos hacc
      obtain ⟨w₁, hwalk⟩ := h.walk_of_accepts hacc n _ w
      obtain ⟨slot, w₂, htry, hslot, hroute⟩ := h.trySelect hk
        (hks k (List.mem_of_getElem? hk)) hacc hp (some (k.preferred memory.descriptors))
        (fun known hknown => (Option.some.inj hknown).symm) w₁
      have hsound := h.setSlot hk hslot
      rw [hwalk, htry]
      rcases hv : k.verdict memory.descriptors with e | _ | _
      · rw [hchoose]
        simp only [SteadyKernel.choose, hresponse, hv]
        exact ⟨rfl, hsound, hres, fun i hi => by cases hi⟩
      · refine ih hsound hres (n + 1) hrest' ?_ w₂
        rw [hchoose]
        simp only [SteadyKernel.choose, hresponse, hv]
      · have hchosen : SteadyKernel.choose memory.descriptors ks 0 = .ok (some n) := by
          rw [hchoose]
          simp only [SteadyKernel.choose, hresponse, hv]
        rw [hchosen]
        exact hsound.follows_taken hk hp hchosen (h.slot?_setSlot_self hk slot) hroute w₂

theorem Sound.walkAll {d : Dispatcher α σ} (h : d.Sound ks P) (hres : d.resolved = none)
    (hks : ∀ k ∈ ks, k.Coherent P) {memory : Bindings} (hp : P memory.descriptors) (w : World σ) :
    Follows ks P memory.descriptors (SteadyKernel.choose memory.descriptors ks 0)
      (d.walkAll memory w) := by
  unfold Dispatcher.walkAll
  rw [h.candidates_eq]
  exact h.walk hres hks hp ks 0 rfl rfl w

/-- A remembered decision is the one that the walk would come to. -/
theorem Sound.resolve {d : Dispatcher α σ} (h : d.Sound ks P) (hks : ∀ k ∈ ks, k.Coherent P)
    {memory : Bindings} (hp : P memory.descriptors) (w : World σ) :
    Follows ks P memory.descriptors (SteadyKernel.choose memory.descriptors ks 0)
      (d.resolve memory w) := by
  unfold Dispatcher.resolve
  cases huse : d.decisions.use? memory.descriptors with
  | none =>
    simp only [huse]
    exact (h.withDecisions h.remembers none).walkAll rfl hks hp w
  | some found =>
    obtain ⟨choice, decisions⟩ := found
    obtain ⟨hmem, hsub⟩ := Recency.mem_of_use? huse
    obtain ⟨-, hchosen, hroute⟩ := h.remembers _ hmem
    obtain ⟨k, hk, hacc, hverdict⟩ := SteadyKernel.of_choose hchosen
    have hsound : Sound ks P { d with decisions, resolved := none } :=
      h.withDecisions (fun e he => h.remembers e (hsub e he)) none
    obtain ⟨slot, w', htry, hslot, hslotRoute⟩ := hsound.trySelect hk
      (hks k (List.mem_of_getElem? hk)) hacc hp none (fun known hknown => by cases hknown) w
    rw [← hroute k hk, hverdict] at htry
    have hcandidate : d.candidates[choice.index]? = some k.kernel := by
      rw [h.candidates_eq, List.getElem?_map, hk]
      rfl
    rw [hchosen]
    simp only [huse, hcandidate, htry]
    refine ⟨rfl, (hsound.setSlot hk hslot).withDecisions hsound.remembers _, rfl, fun i hi => ?_⟩
    cases hi
    exact ⟨k, slot, hk, hsound.slot?_setSlot_self hk slot, hslotRoute⟩

/-- An update follows the walk, whether or not a candidate is in force already. -/
theorem Ready.update {d : Dispatcher α σ} (h : d.Ready ks P) (hks : ∀ k ∈ ks, k.Coherent P)
    {memory : Bindings} (hp : P memory.descriptors) (w : World σ) :
    Follows ks P memory.descriptors (SteadyKernel.choose memory.descriptors ks 0)
      (d.update memory w) := by
  unfold Dispatcher.update
  cases hcurrent : d.current? memory with
  | none => exact h.sound.resolve hks hp w
  | some found =>
    obtain ⟨index, slot⟩ := found
    unfold current? at hcurrent
    cases hres : d.resolved with
    | none => simp [hres] at hcurrent
    | some inForce =>
      obtain ⟨signature, i⟩ := inForce
      simp only [hres] at hcurrent
      split at hcurrent
      · rename_i hsig
        subst hsig
        simp only [Option.map_eq_some_iff, Prod.mk.injEq] at hcurrent
        obtain ⟨_, hslot, rfl, rfl⟩ := hcurrent
        obtain ⟨-, hchosen, hholds⟩ := h.inForce _ _ hres
        obtain ⟨k, hk, hacc, hverdict⟩ := SteadyKernel.of_choose hchosen
        obtain ⟨k', slot', hk', hslot', hroute⟩ := hholds
        rw [hk] at hk'
        cases hk'
        rw [hslot] at hslot'
        cases hslot'
        obtain ⟨slot', w', hoffer, hkeeps, hroute'⟩ := d.offer_eq_verdict i
          (hks k (List.mem_of_getElem? hk)) (h.sound.keeps i k _ hk hslot) hroute hacc hp w
        simp only [hoffer, hverdict, hchosen]
        refine ⟨rfl, h.sound.setSlot hk hkeeps, hres, fun j hj => ?_⟩
        cases hj
        exact ⟨k, slot', hk, h.sound.slot?_setSlot_self hk slot', hroute'⟩
      · cases hcurrent

/-! ## Histories -/

/-- A run leaves the dispatcher as the update before it does. -/
theorem execute_dispatcher [Operation α] (d : Dispatcher α σ) (memory : Bindings) (w : World σ) :
    (d.execute memory w).2.1 = (d.update memory w).2.1 := by
  unfold Dispatcher.execute
  rcases d.update memory w with ⟨_ | _ | _, d', w'⟩
  · rfl
  · rfl
  · dsimp only
    cases d'.selected? with
    | none => rfl
    | some slot => rfl

theorem Ready.perform [Operation α] {s : Dispatcher α σ × World σ} (h : s.1.Ready ks P)
    (hks : ∀ k ∈ ks, k.Coherent P) {c : Call σ} (hc : c.Within P) : (perform s c).1.Ready ks P := by
  cases c with
  | update memory => exact (h.update hks hc s.2).ready hc
  | execute memory =>
    show (s.1.execute memory s.2).2.1.Ready ks P
    rw [execute_dispatcher]
    exact (h.update hks hc s.2).ready hc
  | elsewhere change => exact h

theorem Ready.after [Operation α] {s : Dispatcher α σ × World σ} (h : s.1.Ready ks P)
    (hks : ∀ k ∈ ks, k.Coherent P) {calls : List (Call σ)} (hcalls : ∀ c ∈ calls, c.Within P) :
    (after s calls).1.Ready ks P := by
  induction calls generalizing s with
  | nil => exact h
  | cons c calls ih =>
    obtain ⟨hc, hrest⟩ := List.forall_mem_cons.1 hcalls
    exact ih (h.perform hks hc) hrest

/-- The reply that the walk gives. -/
def walkReply (ks : List (SteadyKernel σ attrs constraints)) (ds : Descriptors) :
    Except Error Bool × Option Nat :=
  let c := SteadyKernel.choose ds ks 0
  (c.map Option.isSome, c.toOption.join)

theorem Ready.reply_eq {s : Dispatcher α σ × World σ} (h : s.1.Ready ks P)
    (hks : ∀ k ∈ ks, k.Coherent P) {memory : Bindings} (hp : P memory.descriptors) :
    reply s memory = walkReply ks memory.descriptors := by
  have hf := h.update hks hp s.2
  refine Prod.ext hf.answer ?_
  show (s.1.update memory s.2).2.1.resolvedIndex = _
  rw [resolvedIndex, hf.resolved, Option.map_map]
  exact congrFun Option.map_id _

end Dispatcher

end KernelDispatch
