import KernelDispatch.Proofs.Dispatch.Walk

/-
  What a call does to the candidates of a dispatcher, whatever they are. An update asks their
  predicates, builds them and offers the operands to what has been built, and nothing else: a
  relation between worlds that all these steps keep holds between the worlds before and after the
  update (`Tended.update`). If the update fails, the building or the update of a candidate does
  (`Fails`). If it says that a candidate takes the operands, that candidate is in force, its slot is
  filled, and the last step was its own consent (`Taken`).
-/

namespace KernelDispatch

namespace Dispatcher

variable {α σ : Type} {ks : List (Kernel α σ)} {attrs : α} {constraints : Constraints}
  {R : World σ → World σ → Prop} {J : Nat → Instance σ → Prop} {Q : Nat → Descriptors → Prop}

/-- A relation between worlds that every step of the candidates keeps except their runs, and a
    property of what has been built of each candidate that updates keep. -/
structure Conduct (ks : List (Kernel α σ)) (attrs : α) (constraints : Constraints)
    (R : World σ → World σ → Prop) (J : Nat → Instance σ → Prop) : Prop where
  refl : ∀ w, R w w
  trans : ∀ {w w' w''}, R w w' → R w' w'' → R w w''
  supports : ∀ k ∈ ks, ∀ ds w, R w (w.run (k.supports attrs ds constraints)).2
  acceptsShapes : ∀ k ∈ ks, ∀ memory w, R w (w.run (k.acceptsShapes memory)).2
  preferred : ∀ k ∈ ks, ∀ ds w, R w (w.run (k.preferred attrs ds)).2
  build : ∀ i k, ks[i]? = some k → ∀ preferred memory w r w',
    Instance.build k attrs memory.descriptors preferred memory w = (r, w') →
      R w w' ∧ ∀ built, r = .ok built → J i built
  update : ∀ i built, J i built → ∀ memory w,
    R w (built.update memory w).2.2 ∧ J i (built.update memory w).2.1

/-- `Q` holds of all operands that the predicates of a candidate let pass. -/
def Vets (ks : List (Kernel α σ)) (attrs : α) (constraints : Constraints)
    (Q : Nat → Descriptors → Prop) : Prop :=
  ∀ i k, ks[i]? = some k → ∀ memory s s',
    (k.supports attrs memory.descriptors constraints s).1 = true →
      (k.acceptsShapes memory s').1 = true → Q i memory.descriptors

/-- The dispatcher is over the candidates. What has been built of them has the property `J`, and the
    operands that are remembered or in force for a candidate passed its predicates. -/
structure Tended (ks : List (Kernel α σ)) (attrs : α) (constraints : Constraints)
    (J : Nat → Instance σ → Prop) (Q : Nat → Descriptors → Prop) (d : Dispatcher α σ) : Prop where
  attrs_eq : d.attrs = attrs
  constraints_eq : d.constraints = constraints
  candidates_eq : d.candidates = ks
  length_slots : d.slots.length = ks.length
  slots : ∀ i slot, d.slot? i = some slot → J i slot.built
  remembers : ∀ e ∈ d.decisions.entries, Q e.2.index e.1
  inForce : ∀ ds i, d.resolved = some (ds, i) → Q i ds ∧ ∃ slot, d.slot? i = some slot

theorem tended_ofCandidates (ks : List (Kernel α σ)) (attrs : α) (constraints : Constraints)
    (J : Nat → Instance σ → Prop) (Q : Nat → Descriptors → Prop) (context : Context) :
    Tended ks attrs constraints J Q (ofCandidates ks attrs constraints context) := by
  refine ⟨rfl, rfl, rfl, by simp [ofCandidates], fun i slot hslot => ?_, ?_, fun ds i h => ?_⟩
  · rw [slot?_ofCandidates] at hslot
    cases hslot
  · rintro e ⟨⟩
  · cases h

theorem Tended.setSlot {d : Dispatcher α σ} (h : Tended ks attrs constraints J Q d) (i : Nat)
    {slot : Slot σ} (hslot : J i slot.built) :
    Tended ks attrs constraints J Q (d.setSlot i slot) := by
  refine ⟨h.attrs_eq, h.constraints_eq, h.candidates_eq, List.length_set.trans h.length_slots,
    fun j slot' hslot' => ?_, h.remembers, fun ds j hres => ?_⟩
  · rw [slot?_setSlot] at hslot'
    split at hslot'
    · rename_i hij
      cases hslot'
      exact hij.1 ▸ hslot
    · exact h.slots j slot' hslot'
  · obtain ⟨hq, slot', hslot'⟩ := h.inForce ds j hres
    rw [slot?_setSlot]
    split
    · exact ⟨hq, slot, rfl⟩
    · exact ⟨hq, slot', hslot'⟩

theorem Tended.slot?_setSlot_self {d : Dispatcher α σ} (h : Tended ks attrs constraints J Q d)
    {i : Nat} {k : Kernel α σ} (hk : ks[i]? = some k) (slot : Slot σ) :
    (d.setSlot i slot).slot? i = some slot := by
  have hlt : i < d.slots.length := by
    rw [h.length_slots]
    exact (List.getElem?_eq_some_iff.1 hk).1
  rw [slot?_setSlot, if_pos ⟨rfl, hlt⟩]

/-- What has been built is of one of the candidates. -/
theorem Tended.lt_of_slot? {d : Dispatcher α σ} (h : Tended ks attrs constraints J Q d) {i : Nat}
    {slot : Slot σ} (hslot : d.slot? i = some slot) : i < ks.length := by
  rw [← h.length_slots]
  exact (List.getElem?_eq_some_iff.1 (Option.join_eq_some_iff.1 hslot)).1

/-- Other decisions are remembered, and no candidate is in force. -/
theorem Tended.withDecisions {d : Dispatcher α σ} (h : Tended ks attrs constraints J Q d)
    {decisions : Recency Signature Choice} (hd : ∀ e ∈ decisions.entries, Q e.2.index e.1) :
    Tended ks attrs constraints J Q { d with decisions, resolved := none } :=
  ⟨h.attrs_eq, h.constraints_eq, h.candidates_eq, h.length_slots, h.slots, hd,
    fun ds i hres => by cases hres⟩

/-- A candidate comes into force. -/
theorem Tended.resolve {d : Dispatcher α σ} (h : Tended ks attrs constraints J Q d)
    {ds : Descriptors} {i : Nat} (hq : Q i ds) {slot : Slot σ} (hslot : d.slot? i = some slot) :
    Tended ks attrs constraints J Q { d with resolved := some (ds, i) } := by
  refine ⟨h.attrs_eq, h.constraints_eq, h.candidates_eq, h.length_slots, h.slots, h.remembers,
    fun ds' i' hres => ?_⟩
  cases hres
  exact ⟨hq, slot, hslot⟩

/-! ## Failure and consent -/

/-- A candidate cannot be built for the operands, or what has been built of it cannot be updated to
    them: the error is what that ends with. -/
def Fails (ks : List (Kernel α σ)) (attrs : α) (J : Nat → Instance σ → Prop) (memory : Bindings)
    (e : Error) : Prop :=
  (∃ k ∈ ks, ∃ preferred w,
    (Instance.build k attrs memory.descriptors preferred memory w).1 = .error e) ∨
  ∃ i built w, J i built ∧ (built.update memory w).1 = .error e

/-- What has been built of candidate `i` is in `slot`, and its consent to the operands was the last
    step that led to the world `w'`. -/
structure Consents (R : World σ → World σ → Prop) (J : Nat → Instance σ → Prop) (memory : Bindings)
    (w : World σ) (d : Dispatcher α σ) (w' : World σ) (i : Nat) (slot : Slot σ) : Prop where
  slot_eq : d.slot? i = some slot
  answered : ∃ built w₀, R w w₀ ∧ J i built ∧ built.update memory w₀ = (.ok true, slot.built, w')

theorem Consents.after {w₁ w w' : World σ} {d : Dispatcher α σ} {memory : Bindings} {i : Nat}
    {slot : Slot σ} (h : Consents R J memory w₁ d w' i slot)
    (hc : Conduct ks attrs constraints R J) (hw : R w w₁) : Consents R J memory w d w' i slot := by
  obtain ⟨built, w₀, hr, hj, hanswer⟩ := h.answered
  exact ⟨h.slot_eq, built, w₀, hc.trans hw hr, hj, hanswer⟩

/-- A candidate that consented is in force for the operands, which passed its predicates. -/
structure Taken (R : World σ → World σ → Prop) (J : Nat → Instance σ → Prop)
    (Q : Nat → Descriptors → Prop) (memory : Bindings) (w : World σ) (d : Dispatcher α σ)
    (w' : World σ) (i : Nat) (slot : Slot σ) : Prop extends
    Consents R J memory w d w' i slot where
  resolved : d.resolved = some (memory.descriptors, i)
  vetted : Q i memory.descriptors

/-- How an update ends. -/
structure Concludes (ks : List (Kernel α σ)) (attrs : α) (constraints : Constraints)
    (R : World σ → World σ → Prop) (J : Nat → Instance σ → Prop) (Q : Nat → Descriptors → Prop)
    (memory : Bindings) (w : World σ) (r : Except Error Bool × Dispatcher α σ × World σ) :
    Prop where
  related : R w r.2.2
  tended : Tended ks attrs constraints J Q r.2.1
  failed : ∀ e, r.1 = .error e → Fails ks attrs J memory e
  taken : r.1 = .ok true → ∃ i slot, Taken R J Q memory w r.2.1 r.2.2 i slot

theorem Concludes.after {w₁ w : World σ} {memory : Bindings}
    {r : Except Error Bool × Dispatcher α σ × World σ}
    (h : Concludes ks attrs constraints R J Q memory w₁ r) (hc : Conduct ks attrs constraints R J)
    (hw : R w w₁) : Concludes ks attrs constraints R J Q memory w r := by
  refine ⟨hc.trans hw h.related, h.tended, h.failed, fun hr => ?_⟩
  obtain ⟨i, slot, ht⟩ := h.taken hr
  exact ⟨i, slot, ht.toConsents.after hc hw, ht.resolved, ht.vetted⟩

/-! ## Offers -/

/-- How an offer to a candidate ends, with the same candidate in force as before. -/
structure Offered (ks : List (Kernel α σ)) (attrs : α) (constraints : Constraints)
    (R : World σ → World σ → Prop) (J : Nat → Instance σ → Prop) (Q : Nat → Descriptors → Prop)
    (memory : Bindings) (d : Dispatcher α σ) (i : Nat) (w : World σ)
    (r : Except Error Bool × Dispatcher α σ × World σ) : Prop where
  related : R w r.2.2
  tended : Tended ks attrs constraints J Q r.2.1
  resolved_eq : r.2.1.resolved = d.resolved
  failed : ∀ e, r.1 = .error e → Fails ks attrs J memory e
  consents : r.1 = .ok true → ∃ slot, Consents R J memory w r.2.1 r.2.2 i slot

theorem Tended.offer {d : Dispatcher α σ} (h : Tended ks attrs constraints J Q d)
    (hc : Conduct ks attrs constraints R J) {i : Nat} {k : Kernel α σ} (hk : ks[i]? = some k)
    {slot : Slot σ} (hslot : J i slot.built) (memory : Bindings) (w : World σ) :
    Offered ks attrs constraints R J Q memory d i w (d.offer i slot memory w) := by
  obtain ⟨hr, hj⟩ := hc.update i slot.built hslot memory w
  refine ⟨hr, h.setSlot i hj, rfl, fun e he => .inr ⟨i, slot.built, w, hslot, he⟩, fun htrue => ?_⟩
  refine ⟨_, h.slot?_setSlot_self hk _, slot.built, w, hc.refl w, hslot, ?_⟩
  exact Prod.ext htrue rfl

theorem Offered.after {w₁ w : World σ} {memory : Bindings} {d : Dispatcher α σ} {i : Nat}
    {r : Except Error Bool × Dispatcher α σ × World σ}
    (h : Offered ks attrs constraints R J Q memory d i w₁ r)
    (hc : Conduct ks attrs constraints R J) (hw : R w w₁) :
    Offered ks attrs constraints R J Q memory d i w r := by
  refine ⟨hc.trans hw h.related, h.tended, h.resolved_eq, h.failed, fun hr => ?_⟩
  obtain ⟨slot, hs⟩ := h.consents hr
  exact ⟨slot, hs.after hc hw⟩

/-- A candidate is built and then offered the operands. -/
theorem Tended.offer_built {d : Dispatcher α σ} (h : Tended ks attrs constraints J Q d)
    (hc : Conduct ks attrs constraints R J) {i : Nat} {k : Kernel α σ} (hk : ks[i]? = some k)
    (preferred : Option Descriptors) (memory : Bindings) (w : World σ) :
    Offered ks attrs constraints R J Q memory d i w
      (match Instance.build k d.attrs memory.descriptors preferred memory w with
      | (.error e, w) => (.error e, d, w)
      | (.ok built, w) => d.offer i { route := Route.of preferred, built } memory w) := by
  rcases hbuild : Instance.build k d.attrs memory.descriptors preferred memory w with ⟨r, w₁⟩
  rw [h.attrs_eq] at hbuild
  obtain ⟨hw, hbuilt⟩ := hc.build i k hk preferred memory w r w₁ hbuild
  cases r with
  | error e =>
    refine ⟨hw, h, rfl, ?_, fun hr => by cases hr⟩
    rintro e ⟨⟩
    exact .inl ⟨k, List.mem_of_getElem? hk, preferred, w, congrArg Prod.fst hbuild⟩
  | ok built =>
    have hslot : J i (Slot.mk (Route.of preferred) built).built := hbuilt built rfl
    exact (h.offer hc hk hslot memory w₁).after hc hw

/-- A candidate is offered the operands, after it has been built if need be. -/
theorem Tended.trySelect {d : Dispatcher α σ} (h : Tended ks attrs constraints J Q d)
    (hc : Conduct ks attrs constraints R J) {i : Nat} {k : Kernel α σ} (hk : ks[i]? = some k)
    (route : Route) (preferred : Option (Option Descriptors)) (memory : Bindings) (w : World σ) :
    Offered ks attrs constraints R J Q memory d i w
      (d.trySelect i k route preferred memory w) := by
  unfold Dispatcher.trySelect
  cases hkept : (d.slot? i).filter fun slot => slot.route = route with
  | some slot =>
    exact h.offer hc hk (h.slots i slot (Option.filter_eq_some_iff.1 hkept).1) memory w
  | none =>
    -- what the kernel prefers is known, or it is asked for
    cases preferred with
    | some known => exact h.offer_built hc hk known memory w
    | none =>
      have hasked := hc.preferred k (List.mem_of_getElem? hk) memory.descriptors w
      rw [← h.attrs_eq] at hasked
      exact (h.offer_built hc hk _ memory _).after hc hasked

/-! ## Whole updates -/

theorem Tended.passes {d : Dispatcher α σ} (h : Tended ks attrs constraints J Q d)
    (hc : Conduct ks attrs constraints R J) (hv : Vets ks attrs constraints Q) {i : Nat}
    {k : Kernel α σ} (hk : ks[i]? = some k) (memory : Bindings) (w : World σ) :
    R w (d.passes k memory w).2 ∧ ((d.passes k memory w).1 = true → Q i memory.descriptors) := by
  have hmem := List.mem_of_getElem? hk
  unfold Dispatcher.passes
  rw [h.attrs_eq, h.constraints_eq]
  have hr := hc.supports k hmem memory.descriptors w
  rcases hs : w.run (k.supports attrs memory.descriptors constraints) with ⟨_ | _, w₁⟩
  · rw [hs] at hr
    exact ⟨hr, fun hfalse => by cases hfalse⟩
  · rw [hs] at hr
    refine ⟨hc.trans hr (hc.acceptsShapes k hmem memory w₁), fun htrue => ?_⟩
    exact hv i k hk memory w.toSession w₁.toSession (congrArg Prod.fst hs) htrue

/-- A walk over candidates, none of which is in force yet. -/
theorem Tended.walk {d : Dispatcher α σ} (h : Tended ks attrs constraints J Q d)
    (hc : Conduct ks attrs constraints R J) (hv : Vets ks attrs constraints Q) (memory : Bindings)
    {rest : List (Kernel α σ × Nat)} (hrest : ∀ e ∈ rest, ks[e.2]? = some e.1)
    (hres : d.resolved = none) (w : World σ) :
    Concludes ks attrs constraints R J Q memory w (Dispatcher.walk memory rest d w) := by
  induction rest generalizing d w with
  | nil => exact ⟨hc.refl w, h, fun e he => (by cases he), fun hr => by cases hr⟩
  | cons e rest ih =>
    obtain ⟨k, i⟩ := e
    obtain ⟨hk, hrest⟩ := List.forall_mem_cons.1 hrest
    have hk : ks[i]? = some k := hk
    obtain ⟨hw₁, hq⟩ := h.passes hc hv hk memory w
    rw [Dispatcher.walk]
    rcases hp : d.passes k memory w with ⟨_ | _, w₁⟩
    · rw [hp] at hw₁
      exact (ih h hrest hres w₁).after hc hw₁
    · rw [hp] at hw₁ hq
      have hw₂ := hc.preferred k (List.mem_of_getElem? hk) memory.descriptors w₁
      rw [← h.attrs_eq] at hw₂
      have hw := hc.trans hw₁ hw₂
      dsimp only
      generalize w₁.run (k.preferred d.attrs memory.descriptors) = asked at hw
      obtain ⟨preferred, w₂⟩ := asked
      have ho := h.trySelect hc hk (Route.of preferred) (some preferred) memory w₂
      dsimp only
      rcases htry : d.trySelect i k (Route.of preferred) (some preferred) memory w₂ with
        ⟨_ | _ | _, d₃, w₃⟩
      · rw [htry] at ho
        exact ⟨hc.trans hw ho.related, ho.tended, ho.failed, fun hr => by cases hr⟩
      · rw [htry] at ho
        exact (ih ho.tended hrest (ho.resolved_eq.trans hres) w₃).after hc
          (hc.trans hw ho.related)
      · rw [htry] at ho
        obtain ⟨slot, hs⟩ := ho.consents rfl
        have hstored : Tended ks attrs constraints J Q
            { d₃ with
              decisions := d₃.decisions.store memory.descriptors ⟨i, Route.of preferred⟩
              resolved := none } := by
          refine ho.tended.withDecisions fun e he => ?_
          rcases Recency.mem_of_store he with rfl | he
          · exact hq rfl
          · exact ho.tended.remembers e he
        refine ⟨hc.trans hw ho.related, hstored.resolve (hq rfl) hs.slot_eq,
          fun e he => (by cases he), fun _ => ⟨i, slot, ?_, rfl, hq rfl⟩⟩
        have hs' := hs.after hc hw
        exact ⟨hs'.slot_eq, hs'.answered⟩

theorem Tended.walkAll {d : Dispatcher α σ} (h : Tended ks attrs constraints J Q d)
    (hc : Conduct ks attrs constraints R J) (hv : Vets ks attrs constraints Q) (memory : Bindings)
    (hres : d.resolved = none) (w : World σ) :
    Concludes ks attrs constraints R J Q memory w (d.walkAll memory w) := by
  refine h.walk hc hv memory (fun e he => ?_) hres w
  rw [h.candidates_eq] at he
  exact List.mem_zipIdx_iff_getElem?.1 he

theorem Tended.resolveAnew {d : Dispatcher α σ} (h : Tended ks attrs constraints J Q d)
    (hc : Conduct ks attrs constraints R J) (hv : Vets ks attrs constraints Q) (memory : Bindings)
    (w : World σ) : Concludes ks attrs constraints R J Q memory w (d.resolve memory w) := by
  unfold Dispatcher.resolve
  dsimp only
  cases huse : d.decisions.use? memory.descriptors with
  | none => exact (h.withDecisions h.remembers).walkAll hc hv memory rfl w
  | some found =>
    obtain ⟨choice, decisions⟩ := found
    obtain ⟨hmem, hsub⟩ := Recency.mem_of_use? huse
    have hq : Q choice.index memory.descriptors := h.remembers _ hmem
    have h₁ : Tended ks attrs constraints J Q { d with decisions, resolved := none } :=
      h.withDecisions fun e he => h.remembers e (hsub e he)
    dsimp only
    cases hk : d.candidates[choice.index]? with
    | none => exact h₁.walkAll hc hv memory rfl w
    | some k =>
      have hk' : ks[choice.index]? = some k := by rw [← h.candidates_eq, hk]
      have ho := h₁.trySelect hc hk' choice.route none memory w
      dsimp only
      rcases htry : Dispatcher.trySelect { d with decisions, resolved := none } choice.index k
        choice.route none memory w with ⟨_ | _ | _, d₃, w₃⟩
      · rw [htry] at ho
        exact ⟨ho.related, ho.tended, ho.failed, fun hr => by cases hr⟩
      · rw [htry] at ho
        have hforgotten : Tended ks attrs constraints J Q
            { d₃ with decisions := d₃.decisions.forget memory.descriptors } := by
          have hnone : d₃.resolved = none := ho.resolved_eq
          have h₃ : Tended ks attrs constraints J Q
              { d₃ with
                decisions := d₃.decisions.forget memory.descriptors
                resolved := none } :=
            ho.tended.withDecisions fun e he => ho.tended.remembers e (Recency.mem_without he)
          rw [← hnone] at h₃
          exact h₃
        exact (hforgotten.walkAll hc hv memory ho.resolved_eq w₃).after hc ho.related
      · rw [htry] at ho
        obtain ⟨slot, hs⟩ := ho.consents rfl
        exact ⟨ho.related, ho.tended.resolve hq hs.slot_eq, fun e he => (by cases he),
          fun _ => ⟨choice.index, slot, ⟨hs.slot_eq, hs.answered⟩, rfl, hq⟩⟩

/-- An update keeps the relation and the properties. If it fails, a candidate fails, and if it says
    that a candidate takes the operands, that candidate consented last and is in force. -/
theorem Tended.update {d : Dispatcher α σ} (h : Tended ks attrs constraints J Q d)
    (hc : Conduct ks attrs constraints R J) (hv : Vets ks attrs constraints Q) (memory : Bindings)
    (w : World σ) : Concludes ks attrs constraints R J Q memory w (d.update memory w) := by
  unfold Dispatcher.update
  cases hcurrent : d.current? memory with
  | none => exact h.resolveAnew hc hv memory w
  | some found =>
    obtain ⟨index, slot⟩ := found
    unfold current? at hcurrent
    cases hres : d.resolved with
    | none => simp [hres] at hcurrent
    | some inForce =>
      obtain ⟨signature, i⟩ := inForce
      simp only [hres] at hcurrent
      split at hcurrent
      · rename_i hsig
        simp only [Option.map_eq_some_iff, Prod.mk.injEq] at hcurrent
        obtain ⟨_, hslot, rfl, rfl⟩ := hcurrent
        have ho := h.offer hc (List.getElem?_eq_getElem (h.lt_of_slot? hslot))
          (h.slots i _ hslot) memory w
        refine ⟨ho.related, ho.tended, ho.failed, fun hr => ?_⟩
        obtain ⟨slot', hs⟩ := ho.consents hr
        have hq := (h.inForce signature i hres).1
        rw [hsig] at hq hres
        exact ⟨i, slot', hs, ho.resolved_eq.trans hres, hq⟩
      · cases hcurrent

/-! ## Histories -/

theorem Tended.after [Operation α] {s : Dispatcher α σ × World σ}
    (h : Tended ks attrs constraints J Q s.1) (hc : Conduct ks attrs constraints R J)
    (hv : Vets ks attrs constraints Q) (calls : List (Call σ)) :
    Tended ks attrs constraints J Q (after s calls).1 := by
  induction calls generalizing s with
  | nil => exact h
  | cons c calls ih =>
    refine ih (s := perform s c) ?_
    cases c with
    | update memory => exact (h.update hc hv memory s.2).tended
    | execute memory =>
      show Tended ks attrs constraints J Q (s.1.execute memory s.2).2.1
      rw [execute_dispatcher]
      exact (h.update hc hv memory s.2).tended
    | elsewhere change => exact h

/-- A run fails with the dispatcher and the world as the update before it left them, or it runs what
    is in the slot of the candidate in force. -/
theorem Tended.execute_eq [Operation α] {d : Dispatcher α σ}
    (h : Tended ks attrs constraints J Q d) (hc : Conduct ks attrs constraints R J)
    (hv : Vets ks attrs constraints Q) (memory : Bindings) (w : World σ) :
    ((d.update memory w).1 ≠ .ok true ∧ (∃ e, (d.execute memory w).1 = .error e) ∧
        (d.execute memory w).2 = (d.update memory w).2) ∨
      ∃ i slot, (d.update memory w).1 = .ok true ∧
        Taken R J Q memory w (d.update memory w).2.1 (d.update memory w).2.2 i slot ∧
        d.execute memory w = ((slot.built.execute memory (d.update memory w).2.2).1,
          (d.update memory w).2.1, (slot.built.execute memory (d.update memory w).2.2).2) := by
  have hconcludes := h.update hc hv memory w
  unfold Dispatcher.execute
  rcases hupdate : d.update memory w with ⟨_ | _ | _, d', w'⟩
  · exact .inl ⟨by simp, ⟨_, rfl⟩, rfl⟩
  · exact .inl ⟨by simp, ⟨_, rfl⟩, rfl⟩
  · rw [hupdate] at hconcludes
    obtain ⟨i, slot, ht⟩ := hconcludes.taken rfl
    have hselected : d'.selected? = some slot := by
      have hres : d'.resolved = some (memory.descriptors, i) := ht.resolved
      have hslot : d'.slot? i = some slot := ht.slot_eq
      simp only [selected?, resolvedIndex, hres, Option.map_some, Option.bind_some, hslot]
    refine .inr ⟨i, slot, rfl, ht, ?_⟩
    simp only [hselected]

end Dispatcher

end KernelDispatch
