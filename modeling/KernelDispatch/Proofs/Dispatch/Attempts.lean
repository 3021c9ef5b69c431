import KernelDispatch.Proofs.Dispatch.Calls
import KernelDispatch.Proofs.Dispatch.Inquiries
import KernelDispatch.Proofs.Dispatch.Scripts

/-
  Kernels that run on the caller's memories and answer updates from descriptors. A dispatcher over
  such kernels never builds a candidate again, and what has been built answers without a change to
  anything (`Dispatcher.offer_of_plain`). A walk asks for predicates, and whoever takes the operands
  at its end takes all operands like them (`Dispatcher.Plain.walkAll`).
-/

namespace KernelDispatch

/-! ## Kernels that run on the caller's memories -/

/-- A kernel that never asks for other descriptors. What it builds answers updates from
    descriptors. -/
structure Kernel.Plain {α σ : Type} (k : Kernel α σ) (attrs : α) : Prop where
  preferred : ∀ ds s, (k.preferred attrs ds s).1 = none
  steady : ∀ b s r, (k.build attrs b s).1 = .ok r → r.Steady

/-- A slot with a steady runner for the caller's memories. -/
structure Slot.Plain {σ : Type} (slot : Slot σ) : Prop where
  route_eq : slot.route = none
  direct : ∃ name r, slot.built = .direct name r ∧ r.Steady

/-- What is in the slot takes all operands with these descriptors. -/
def Slot.Takes {σ : Type} (slot : Slot σ) (ds : Descriptors) : Prop :=
  ∀ memory : Bindings, memory.descriptors = ds → ∀ w, (slot.built.update memory w).1 = .ok true

namespace Slot.Plain

variable {σ : Type} {slot : Slot σ}

theorem built_update (h : slot.Plain) (memory : Bindings) (w : World σ) :
    (slot.built.update memory w).2.1 = slot.built := by
  obtain ⟨name, r, hbuilt, -⟩ := h.direct
  rw [hbuilt]
  rfl

theorem takes_of_update (h : slot.Plain) {memory : Bindings} {w : World σ}
    (hanswer : (slot.built.update memory w).1 = .ok true) : slot.Takes memory.descriptors := by
  obtain ⟨name, r, hbuilt, takes, htakes⟩ := h.direct
  intro memory' hds w'
  rw [hbuilt] at hanswer ⊢
  rw [← hanswer]
  show (r.update memory' w'.toSession).1 = (r.update memory w.toSession).1
  rw [htakes, htakes, hds]

end Slot.Plain

/-- A script that wishes for nothing and prescribes no replies. -/
theorem Script.plain (arith : Arithmetic) (op : Scaling) {script : Script}
    (hpreference : script.preference = none) (hbuilds : script.builds = [])
    (hupdates : script.updates = []) : (script.kernel arith).Plain op := by
  refine ⟨fun ds s => ?_, fun b s r hr => ?_⟩
  · simp only [Script.kernel, Script.answer, hpreference]
  · obtain ⟨r', hr', htakes⟩ := (Script.steady arith op ∅ script hbuilds hupdates).builds b s
    have heq : r = r' := Except.ok.inj (hr.symm.trans hr')
    exact heq ▸ ⟨_, htakes⟩

namespace Inquired

variable {α σ : Type}

theorem runner_steady {r : Runner σ} (h : r.Steady) : (runner r).Steady := by
  obtain ⟨takes, htakes⟩ := h
  exact ⟨takes, fun b s => htakes b (view s)⟩

theorem build_plain {i : Nat} {k : Kernel α σ} {attrs : α} (hk : k.Plain attrs) {ds : Descriptors}
    {memory : Bindings} {w w' : World (Inquired σ)} {built : Instance (Inquired σ)}
    (h : Instance.build (kernel i k) attrs ds none memory w = (.ok built, w')) :
    Slot.Plain { route := none, built } := by
  obtain ⟨failure, -, hresult⟩ := kernel_build i k attrs memory w.toSession
  unfold Instance.build World.run at h
  cases failure with
  | none =>
    obtain ⟨r, hr, hbuilt⟩ := hresult
    simp only [hr, Prod.mk.injEq] at h
    obtain ⟨hok, -⟩ := h
    cases hok
    exact ⟨rfl, _, _, rfl, runner_steady (hk.steady memory _ r hbuilt)⟩
  | some e =>
    simp only [hresult.1, Prod.mk.injEq] at h
    cases h.1

end Inquired

namespace Dispatcher

open Inquired

variable {α σ : Type} {ks : List (Kernel α σ)} {attrs : α} {d d' : Dispatcher α (Inquired σ)}

/-! ## Attempts -/

/-- The dispatcher is over the candidates under inquiry, and all slots are plain. -/
structure Plain (ks : List (Kernel α σ)) (attrs : α) (d : Dispatcher α (Inquired σ)) : Prop extends
    Inquires ks attrs d where
  plain : ∀ i slot, d.slot? i = some slot → slot.Plain

/-- The same is remembered and in force, and what has been built is still there. -/
structure Grows (d d' : Dispatcher α (Inquired σ)) : Prop where
  decisions_eq : d'.decisions = d.decisions
  resolved_eq : d'.resolved = d.resolved
  slots : ∀ i slot, d.slot? i = some slot → d'.slot? i = some slot

theorem Grows.refl (d : Dispatcher α (Inquired σ)) : d.Grows d := ⟨rfl, rfl, fun _ _ => id⟩

theorem Grows.trans {d'' : Dispatcher α (Inquired σ)} (h : d.Grows d') (h' : d'.Grows d'') :
    d.Grows d'' :=
  ⟨h'.decisions_eq.trans h.decisions_eq, h'.resolved_eq.trans h.resolved_eq,
    fun i slot hslot => h'.slots i slot (h.slots i slot hslot)⟩

theorem setSlot_eq_self {i : Nat} {slot : Slot (Inquired σ)} (h : d.slot? i = some slot) :
    d.setSlot i slot = d := by
  have hget : d.slots[i]? = some (some slot) := Option.join_eq_some_iff.1 h
  obtain ⟨hlt, hval⟩ := List.getElem?_eq_some_iff.1 hget
  unfold setSlot
  rw [← hval, List.set_getElem_self]

/-- An offer to a plain slot is answered, and nothing else happens. -/
theorem offer_of_plain {slot : Slot (Inquired σ)} (hslot : slot.Plain)
    (hsilent : slot.built.Has Runner.Silent) (d : Dispatcher α (Inquired σ)) (i : Nat)
    (memory : Bindings) (w : World (Inquired σ)) :
    ∃ w', d.offer i slot memory w = ((slot.built.update memory w).1, d.setSlot i slot, w') ∧
      w'.ambient.log = w.ambient.log := by
  refine ⟨(slot.built.update memory w).2.2, ?_, update_log hsilent memory w⟩
  show ((slot.built.update memory w).1,
    d.setSlot i { slot with built := (slot.built.update memory w).2.1 }, _) = _
  rw [hslot.built_update memory w]
  rfl

theorem Plain.offer_eq (h : Plain ks attrs d) {i : Nat} {slot : Slot (Inquired σ)}
    (hslot : d.slot? i = some slot) (memory : Bindings) (w : World (Inquired σ)) :
    ∃ w', d.offer i slot memory w = ((slot.built.update memory w).1, d, w') ∧
      w'.ambient.log = w.ambient.log := by
  obtain ⟨w', hoffer, hlog⟩ :=
    offer_of_plain (h.plain i slot hslot) (h.silent i slot hslot) d i memory w
  rw [setSlot_eq_self hslot] at hoffer
  exact ⟨w', hoffer, hlog⟩

/-- How the attempt to select a candidate ends: more may have been built and entered, and if the
    candidate takes the operands, its slot takes all operands like them. -/
structure Attempted (ks : List (Kernel α σ)) (attrs : α) (d : Dispatcher α (Inquired σ)) (i : Nat)
    (memory : Bindings) (w : World (Inquired σ))
    (r : Except Error Bool × Dispatcher α (Inquired σ) × World (Inquired σ)) : Prop where
  plain : Plain ks attrs r.2.1
  grows : d.Grows r.2.1
  entered : ∃ new, r.2.2.ambient.log = new ++ w.ambient.log
  takes : r.1 = .ok true → ∃ slot, r.2.1.slot? i = some slot ∧ slot.Takes memory.descriptors

theorem Plain.withDecisions (h : Plain ks attrs d) (decisions : Recency Signature Choice)
    (resolved : Option (Signature × Nat)) : Plain ks attrs { d with decisions, resolved } :=
  ⟨h.toInquires.withDecisions decisions resolved, h.plain⟩

theorem Plain.setSlot (h : Plain ks attrs d) (i : Nat) {slot : Slot (Inquired σ)}
    (hsilent : slot.built.Has Runner.Silent) (hslot : slot.Plain) :
    Plain ks attrs (d.setSlot i slot) := by
  refine ⟨h.toInquires.setSlot i hsilent, fun j slot' hslot' => ?_⟩
  rw [slot?_setSlot] at hslot'
  split at hslot'
  · cases hslot'
    exact hslot
  · exact h.plain j slot' hslot'

theorem Plain.offerAnew (h : Plain ks attrs d) {i : Nat} {k : Kernel α σ} (hk : ks[i]? = some k)
    (hplain : k.Plain attrs) (hempty : d.slot? i = none) (memory : Bindings)
    (w : World (Inquired σ)) :
    Attempted ks attrs d i memory w (d.offerAnew i (kernel i k) none memory w) := by
  unfold Dispatcher.offerAnew
  rw [h.attrs_eq]
  rcases hbuild : Instance.build (kernel i k) attrs memory.descriptors none memory w with
    ⟨e | built, w₁⟩
  · refine ⟨h, .refl d, ?_, nofun⟩
    obtain ⟨-, hlog | ⟨b, store, failure, hlog, -⟩⟩ := build_log hbuild
    · exact ⟨[], hlog⟩
    · exact ⟨[_], hlog⟩
  · have hnew := build_plain hplain hbuild
    obtain ⟨hsilent, hlog⟩ := build_log hbuild
    obtain ⟨w', hoffer, hquiet⟩ := offer_of_plain hnew (hsilent built rfl) d i memory w₁
    show Attempted ks attrs d i memory w (d.offer i { route := none, built } memory w₁)
    rw [hoffer]
    refine ⟨h.setSlot i (hsilent built rfl) hnew, ⟨rfl, rfl, fun j slot hslot => ?_⟩, ?_,
      fun hanswer => ?_⟩
    · rw [slot?_setSlot]
      split
      · rename_i hij
        rw [← hij.1, hempty] at hslot
        cases hslot
      · exact hslot
    · rw [hquiet]
      rcases hlog with hlog | ⟨b, store, failure, hlog, -⟩
      · exact ⟨[], hlog⟩
      · exact ⟨[_], hlog⟩
    · exact ⟨_, h.toInquires.slot?_setSlot_self hk _, hnew.takes_of_update hanswer⟩

/-- A candidate that has been built is offered the operands, and nothing else happens. -/
theorem Plain.trySelect_of_slot (h : Plain ks attrs d) {i : Nat} {slot : Slot (Inquired σ)}
    (hslot : d.slot? i = some slot) (k : Kernel α (Inquired σ))
    (known : Option (Option Descriptors)) (memory : Bindings) (w : World (Inquired σ)) :
    ∃ w', d.trySelect i k none known memory w = ((slot.built.update memory w).1, d, w') ∧
      w'.ambient.log = w.ambient.log := by
  rcases d.trySelect_cases i k none known memory w with ⟨slot', hslot', -, htry⟩ | ⟨hother, -⟩
  · rw [hslot] at hslot'
    cases hslot'
    rw [htry]
    exact h.offer_eq hslot memory w
  · exact absurd (h.plain i slot hslot).route_eq (hother slot hslot)

theorem Plain.trySelect (h : Plain ks attrs d) {i : Nat} {k : Kernel α σ} (hk : ks[i]? = some k)
    (hplain : k.Plain attrs) (memory : Bindings) (w : World (Inquired σ)) :
    Attempted ks attrs d i memory w
      (d.trySelect i (kernel i k) none (some none) memory w) := by
  cases hslot : d.slot? i with
  | some slot =>
    obtain ⟨w', htry, hlog⟩ := h.trySelect_of_slot hslot (kernel i k) (some none) memory w
    rw [htry]
    exact ⟨h, .refl d, ⟨[], hlog⟩,
      fun hanswer => ⟨slot, hslot, (h.plain i slot hslot).takes_of_update hanswer⟩⟩
  | none =>
    unfold Dispatcher.trySelect
    rw [hslot]
    exact h.offerAnew hk hplain hslot memory w

/-! ## Walks -/

/-- Among the inquiries is a predicate. -/
def HasPredicate (new : List Inquiry) : Prop := ∃ q ∈ new, q.isPredicate = true

/-- More has been built than in `d₀`, and `P` holds of what has been entered since `log`. -/
structure Progress (ks : List (Kernel α σ)) (attrs : α) (d₀ : Dispatcher α (Inquired σ))
    (log : List Inquiry) (P : List Inquiry → Prop) (d : Dispatcher α (Inquired σ))
    (w : World (Inquired σ)) : Prop where
  plain : Plain ks attrs d
  grows : d₀.Grows d
  entered : ∃ new, w.ambient.log = new ++ log ∧ P new

variable {d₀ : Dispatcher α (Inquired σ)} {log : List Inquiry} {w : World (Inquired σ)}
  {P : List Inquiry → Prop}

theorem Progress.any (h : Progress ks attrs d₀ log P d w) :
    Progress ks attrs d₀ log (fun _ => True) d w :=
  ⟨h.plain, h.grows, h.entered.imp fun _ hnew => ⟨hnew.1, trivial⟩⟩

/-- In the turn of a candidate a predicate is asked for at least, and if the candidate takes the
    operands it does so on the caller's memories. -/
theorem Progress.turn (h : Progress ks attrs d₀ log P d w) {i : Nat} {k : Kernel α σ}
    (hk : ks[i]? = some k) (hplain : k.Plain attrs) (memory : Bindings) :
    let t := d.turn i (kernel i k) memory w
    Progress ks attrs d₀ log HasPredicate t.2.2.1 t.2.2.2 ∧ (t.2.1 = .ok true → t.1 = none ∧
      ∃ slot, t.2.2.1.slot? i = some slot ∧ slot.Takes memory.descriptors) := by
  obtain ⟨before, hbefore, -⟩ := h.entered
  obtain ⟨q, new, hlog, hq, -⟩ := passes_log d i k memory w
  unfold Dispatcher.turn
  rcases hp : d.passes (kernel i k) memory w with ⟨_ | _, w₁⟩ <;> rw [hp] at hlog
  · refine ⟨⟨h.plain, h.grows, new ++ q :: before, ?_, q, by simp, hq⟩, nofun⟩
    rw [hlog, hbefore, List.append_assoc, List.cons_append]
  · have hnone : (w₁.run ((kernel i k).preferred d.attrs memory.descriptors)).1 = none := by
      rw [h.plain.attrs_eq]
      exact hplain.preferred _ _
    have htry := h.plain.trySelect hk hplain memory
      (w₁.run ((kernel i k).preferred d.attrs memory.descriptors)).2
    obtain ⟨after, hafter⟩ := htry.entered
    rw [preferred_log] at hafter
    dsimp only
    rw [hnone]
    refine ⟨⟨htry.plain, h.grows.trans htry.grows, after ++ .preferred i :: (new ++ q :: before),
      ?_, q, by simp, hq⟩, fun hanswer => ⟨rfl, htry.takes hanswer⟩⟩
    refine hafter.trans ?_
    rw [hlog, hbefore]
    simp

/-- How a walk over all candidates ends: after predicates have been asked for, either without a
    choice or with the decision for a candidate that takes all operands like these. -/
theorem Plain.walkAll (h : Plain ks attrs d) (hne : ks ≠ []) (hplain : ∀ k ∈ ks, k.Plain attrs)
    (memory : Bindings) (w : World (Inquired σ)) :
    let r := d.walkAll memory w
    (r.1 ≠ .ok true ∧ Progress ks attrs d w.ambient.log HasPredicate r.2.1 r.2.2) ∨
      ∃ i slot d₁, Progress ks attrs d w.ambient.log HasPredicate d₁ r.2.2 ∧
        d₁.slot? i = some slot ∧ slot.Takes memory.descriptors ∧ r.1 = .ok true ∧ r.2.1 =
          { d₁ with
            decisions := d₁.decisions.store memory.descriptors ⟨i, none⟩
            resolved := some (memory.descriptors, i) } := by
  have hturns : ∀ e ∈ d.candidates.zipIdx, ∀ d₁ w₁,
      Progress ks attrs d w.ambient.log (fun _ => True) d₁ w₁ →
      let t := d₁.turn e.2 e.1 memory w₁
      Progress ks attrs d w.ambient.log HasPredicate t.2.2.1 t.2.2.2 := fun e he d₁ w₁ h₁ => by
    obtain ⟨k, hk, hek⟩ := h.of_mem_zipIdx he
    rw [hek]
    exact (h₁.turn hk (hplain k (List.mem_of_getElem? hk)) memory).1
  have hstart : Progress ks attrs d w.ambient.log (fun _ => True) d w :=
    ⟨h, .refl d, [], rfl, trivial⟩
  unfold Dispatcher.walkAll
  rcases walk_ends (fun _ _ => Progress.any) hturns hstart with
    ⟨hnil, -⟩ | hwalk | ⟨e, he, d₁, w₁, route, d₂, w₂, h₁, hturn, hwalk⟩
  · rw [List.zipIdx_eq_nil_iff, h.candidates_eq, ← List.length_eq_zero_iff, length_kernels,
      List.length_eq_zero_iff] at hnil
    exact absurd hnil hne
  · exact .inl hwalk
  · obtain ⟨k, hk, hek⟩ := h.of_mem_zipIdx he
    have htaken := h₁.turn hk (hplain k (List.mem_of_getElem? hk)) memory
    rw [← hek, hturn] at htaken
    obtain ⟨hroute, slot, hslot, htakes⟩ := htaken.2 rfl
    refine .inr ⟨e.2, slot, d₂, ?_, hslot, htakes, ?_⟩
    · rw [hwalk]
      exact htaken.1
    · rw [hwalk]
      have hnone : route = none := hroute
      rw [hnone]
      exact ⟨rfl, rfl⟩

end Dispatcher

end KernelDispatch
