import KernelDispatch.Proofs.Adapter.Plan
import KernelDispatch.Proofs.Histories

/-
  How an adapter runs its kernel. `Adapter.handOver` is everything that a call does before the
  kernel runs and `Adapter.settle` everything it does afterwards, so that a call runs its kernel at
  most once (`Adapter.runOnce`, `execute_eq`). It gets that far exactly when the operands can be
  converted and staged and the kernel has been built (`Reaches.handOver`, `reaches_of_handOver`).
-/

namespace KernelDispatch

theorem OrderedMap.mem_keys_iff {κ α : Type} [KeyOrder κ] (m : OrderedMap κ α) (k : κ) :
    k ∈ m.keys ↔ ∃ v, m.get? k = some v := by
  simp only [keys, List.mem_map, get?_eq_some_iff]
  constructor
  · rintro ⟨⟨k', v⟩, hmem, rfl⟩; exact ⟨v, hmem⟩
  · rintro ⟨v, hmem⟩; exact ⟨(k, v), hmem, rfl⟩

namespace World

variable {σ : Type}

/-- Converting operands succeeds when each of them can be converted, and changes the store only. -/
theorem convertOperands_eq_ok (source target : Bindings) (ps : List Operand)
    (h : ∀ p ∈ ps, ∃ m m', source.get? p = some m ∧ target.get? p = some m' ∧
      m.desc.checkConversion m'.desc = .ok ()) (w : World σ) :
    ∃ store, convertOperands source target ps w = (.ok (), { w with store }) := by
  induction ps generalizing w with
  | nil => exact ⟨w.store, rfl⟩
  | cons p ps ih =>
    obtain ⟨m, m', hm, hm', hcheck⟩ := h p List.mem_cons_self
    have hconvert : ∃ s, w.store.convert m m' = .ok s := by
      simp only [Store.convert, hcheck]
      split
      · exact ⟨w.store, rfl⟩
      · exact ⟨_, rfl⟩
    obtain ⟨s, hs⟩ := hconvert
    obtain ⟨store, hstore⟩ := ih (fun q hq => h q (List.mem_cons_of_mem _ hq)) { w with store := s }
    refine ⟨store, ?_⟩
    simp only [convertOperands, (source.require_eq_ok_iff p m).2 hm,
      (target.require_eq_ok_iff p m').2 hm', hs]
    exact hstore

end World

/-- What an adapter hands to its kernel: the operands, the loans among them, and the world that the
    kernel finds. -/
structure Handover (σ : Type) where
  runner : Runner σ
  operands : Bindings
  loans : List Loan
  world : World σ

namespace Adapter

variable {α σ : Type}

/-- The part of a call before its kernel runs, or the error that keeps it from running. -/
def handOver (a : Adapter σ) (memory : Bindings) (w : World σ) :
    Except (Error × World σ) (Handover σ) :=
  match a.check memory with
  | .error e => .error (e, w)
  | .ok () =>
    match a.inner with
    | none => .error (.memory (.unstaged a.name), w)
    | some runner =>
      match World.stageFrom memory a.conversions.entries memory [] w with
      | (.error e, loans, w) => .error (.memory e, w.giveBack loans)
      | (.ok operands, loans, w) =>
        match w.convertOperands memory operands (a.conversions.keys.filter Operand.isInput) with
        | (.error e, w) => .error (e, w.giveBack loans)
        | (.ok (), w) => .ok { runner, operands, loans, world := w }

/-- The part of a call after its kernel ran: the outputs are converted back, unless the kernel
    failed, and the loans are returned. -/
def settle (a : Adapter σ) (memory operands : Bindings) (loans : List Loan) :
    Except Error Unit × World σ → Except Error Unit × World σ
  | (.error e, w) => (.error e, w.giveBack loans)
  | (.ok (), w) =>
    let (result, w) :=
      w.convertOperands operands memory (a.conversions.keys.filter Operand.isOutput)
    (result, w.giveBack loans)

/-- A call whose kernel runs once, on what has been handed over. -/
def runOnce (a : Adapter σ) (memory : Bindings) (h : Handover σ) : Except Error Unit × World σ :=
  a.settle memory h.operands h.loans (h.world.run (h.runner.execute h.operands))

/-- A call fails before its kernel runs, or runs it once. -/
theorem execute_eq (a : Adapter σ) (memory : Bindings) (w : World σ) :
    a.execute memory w = match a.handOver memory w with
      | .error (e, w') => (.error e, w')
      | .ok h => a.runOnce memory h := by
  unfold execute handOver runOnce World.withStaged
  cases a.check memory with
  | error e => rfl
  | ok =>
    cases a.inner with
    | none => rfl
    | some runner =>
      dsimp only
      rcases World.stageFrom memory a.conversions.entries memory [] w with
        ⟨_ | operands, loans, w₁⟩
      · rfl
      · dsimp only
        rcases World.convertOperands memory operands
          (a.conversions.keys.filter Operand.isInput) w₁ with ⟨_ | _, w₂⟩
        · rfl
        · dsimp only
          rcases w₂.run (runner.execute operands) with ⟨_ | _, w₃⟩
          · rfl
          · rfl

/-- The operands can be converted and staged, and the kernel has been built. -/
structure Reaches (a : Adapter σ) (memory : Bindings) : Prop where
  converts : memory.descriptors.convertsTo a.conversions = true
  built : ∃ runner, a.inner = some runner
  allocatable : a.conversions.Allocatable

/-- Operands that can be converted are staged with the wanted descriptors in place. -/
theorem Reaches.stages {a : Adapter σ} {memory : Bindings} (h : a.Reaches memory) (w : World σ) :
    ∃ operands loans w₁,
      World.stageFrom memory a.conversions.entries memory [] w = (.ok operands, loans, w₁) ∧
        operands.descriptors = memory.descriptors.replacedBy a.conversions :=
  World.stageFrom_eq_ok memory a.conversions.entries
    (fun _ he => (bound_of_convertsTo h.converts ((OrderedMap.get?_eq_some_iff _).2 he)).imp
      fun _ hm => hm.1)
    (fun e he => h.allocatable e.1 e.2 ((OrderedMap.get?_eq_some_iff _).2 he)) memory [] w

/-- What is converted can be converted to what is staged. -/
theorem Reaches.checkConversion {a : Adapter σ} {memory operands : Bindings}
    (h : a.Reaches memory)
    (hdesc : operands.descriptors = memory.descriptors.replacedBy a.conversions) {p : Operand}
    (hp : p ∈ a.conversions.keys) : ∃ m m', memory.get? p = some m ∧ operands.get? p = some m' ∧
      m.desc.checkConversion m'.desc = .ok () := by
  obtain ⟨d, hd⟩ := (OrderedMap.mem_keys_iff _ p).1 hp
  obtain ⟨m, hm, hcheck⟩ := bound_of_convertsTo h.converts hd
  have hget : operands.descriptors.get? p = some d := by
    rw [hdesc, OrderedMap.get?_replacedBy, hd]
    rfl
  rw [Bindings.get?_descriptors, Option.map_eq_some_iff] at hget
  obtain ⟨m', hm', rfl⟩ := hget
  exact ⟨m, m', hm, hm', hcheck⟩

/-- Outputs can be converted back from staged operands, whatever has happened to these. -/
theorem Reaches.convertsBack {a : Adapter σ} {memory operands : Bindings} (h : a.Reaches memory)
    (hdesc : operands.descriptors = memory.descriptors.replacedBy a.conversions) (v : World σ) :
    ∃ store, v.convertOperands operands memory (a.conversions.keys.filter Operand.isOutput) =
      (.ok (), { v with store }) := by
  refine World.convertOperands_eq_ok operands memory _ (fun p hp => ?_) v
  obtain ⟨m, m', hm, hm', hok⟩ := h.checkConversion hdesc (List.mem_filter.1 hp).1
  exact ⟨m', m, hm', hm, Descriptor.checkConversion_symm hok⟩

/-- The kernel is handed operands with the wanted descriptors in place. -/
theorem Reaches.handOver {a : Adapter σ} {memory : Bindings} (h : a.Reaches memory)
    (w : World σ) : ∃ o, a.handOver memory w = .ok o ∧ a.inner = some o.runner ∧
      o.operands.descriptors = memory.descriptors.replacedBy a.conversions := by
  obtain ⟨operands, loans, w₁, hstage, hdesc⟩ := h.stages w
  obtain ⟨store, hstore⟩ := World.convertOperands_eq_ok memory operands
    (a.conversions.keys.filter Operand.isInput)
    (fun p hp => h.checkConversion hdesc (List.mem_filter.1 hp).1) w₁
  obtain ⟨hconv, ⟨runner, hinner⟩, -⟩ := h
  refine ⟨⟨runner, operands, loans, { w₁ with store }⟩, ?_, hinner, hdesc⟩
  simp only [Adapter.handOver, (a.check_eq_ok_iff memory).2 hconv, hinner, hstage, hstore]

/-- Operands that are checked and staged for a kernel can be converted and staged. -/
theorem reaches_of_stageFrom {a : Adapter σ} {memory operands : Bindings} {w w' : World σ}
    {runner : Runner σ} {loans : List Loan} (hcheck : a.check memory = .ok ())
    (hinner : a.inner = some runner)
    (hstage : World.stageFrom memory a.conversions.entries memory [] w =
      (.ok operands, loans, w')) : a.Reaches memory := by
  refine ⟨(a.check_eq_ok_iff memory).1 hcheck, ⟨runner, hinner⟩, ?_⟩
  refine Classical.byContradiction fun hall => ?_
  simp only [Descriptors.Allocatable, Classical.not_forall] at hall
  obtain ⟨p, d, hd, hbad⟩ := hall
  obtain ⟨e, loans, w', herror⟩ := World.stageFrom_eq_error memory
    a.conversions.entries ⟨(p, d), (OrderedMap.get?_eq_some_iff _).1 hd, hbad⟩
    memory [] w
  rw [hstage] at herror
  cases herror

/-- A call gets as far as running its kernel only if the operands can be converted and staged. -/
theorem reaches_of_handOver {a : Adapter σ} {memory : Bindings} {w : World σ} {h : Handover σ}
    (hh : a.handOver memory w = .ok h) : a.Reaches memory := by
  unfold handOver at hh
  cases hcheck : a.check memory with
  | error e => simp [hcheck] at hh
  | ok =>
    cases hinner : a.inner with
    | none => simp [hcheck, hinner] at hh
    | some runner =>
      rcases hstage : World.stageFrom memory a.conversions.entries memory [] w with
        ⟨_ | operands, loans, w₁⟩
      · simp [hcheck, hinner, hstage] at hh
      · exact reaches_of_stageFrom hcheck hinner hstage

/-- A call fails before its kernel runs, or it runs the kernel once and on operands with the given
    property. -/
def RunsOn (a : Adapter σ) (memory : Bindings) (w : World σ) (P : Bindings → Prop) : Prop :=
  (∃ e w', a.handOver memory w = .error (e, w') ∧ a.execute memory w = (.error e, w')) ∨
    ∃ h, a.handOver memory w = .ok h ∧
      a.execute memory w = a.runOnce memory h ∧ P h.operands

theorem runsOn_iff (a : Adapter σ) (memory : Bindings) (w : World σ) (P : Bindings → Prop) :
    a.RunsOn memory w P ↔ ∀ h, a.handOver memory w = .ok h → P h.operands := by
  constructor
  · rintro (⟨e, w', hh, -⟩ | ⟨h', hh, -, hP⟩) h hok
    · rw [hh] at hok; cases hok
    · rw [hh] at hok; cases hok; exact hP
  · intro hall
    have hexec := a.execute_eq memory w
    cases hh : a.handOver memory w with
    | error ew =>
      obtain ⟨e, w'⟩ := ew
      rw [hh] at hexec
      exact .inl ⟨e, w', hh, hexec⟩
    | ok h =>
      rw [hh] at hexec
      exact .inr ⟨h, hh, hexec, hall h hh⟩

/-! ## Answers to updates -/

/-- Operands that cannot be converted, or for which there is no kernel, are refused. -/
theorem update_of_refused {a : Adapter σ} {memory : Bindings}
    (h : ¬ (memory.descriptors.convertsTo (a.follow memory.descriptors).conversions = true ∧
      ∃ r, a.inner = some r)) (w : World σ) :
    a.update memory w = (.ok false, a.follow memory.descriptors, w) := by
  unfold update
  dsimp only
  split
  · rename_i runner hcheck hinner
    exact absurd ⟨(check_eq_ok_iff _ _).1 hcheck, runner, by rw [← hinner, follow_inner]⟩ h
  · rfl

theorem update_of_unbuilt {a : Adapter σ} (h : a.inner = none) (memory : Bindings) (w : World σ) :
    a.update memory w = (.ok false, a.follow memory.descriptors, w) := by
  refine update_of_refused (fun hready => ?_) w
  rw [h] at hready
  exact nomatch hready.2

theorem update_fst_of_refused {a : Adapter σ} {memory : Bindings}
    (h : ¬ (memory.descriptors.convertsTo (a.follow memory.descriptors).conversions = true ∧
      ∃ r, a.inner = some r)) (w : World σ) : (a.update memory w).1 = .ok false := by
  rw [update_of_refused h]

theorem update_fst_of_unallocatable {a : Adapter σ} {memory : Bindings}
    (hconv : memory.descriptors.convertsTo (a.follow memory.descriptors).conversions = true)
    (hinner : ∃ r, a.inner = some r)
    (h : ¬ (a.follow memory.descriptors).conversions.Allocatable) (w : World σ) :
    ∃ e, (a.update memory w).1 = .error e := by
  obtain ⟨r, hr⟩ := hinner
  obtain ⟨e, he⟩ := w.withStaged_error memory h (fun staged w => w.run (r.update staged))
  refine ⟨.memory e, ?_⟩
  unfold update
  simp only [(check_eq_ok_iff _ _).2 hconv, follow_inner, hr, he]

/-- If an update says that the kernel can run, a call reaches it. -/
theorem reaches_of_update {a : Adapter σ} {memory : Bindings} {w : World σ}
    (h : (a.update memory w).1 = .ok true) : (a.follow memory.descriptors).Reaches memory := by
  by_cases hready : memory.descriptors.convertsTo (a.follow memory.descriptors).conversions = true ∧
      ∃ r, a.inner = some r
  · obtain ⟨hconv, hinner⟩ := hready
    refine ⟨hconv, by rw [follow_inner]; exact hinner, Classical.byContradiction fun hall => ?_⟩
    obtain ⟨e, he⟩ := update_fst_of_unallocatable hconv hinner hall w
    rw [h] at he
    cases he
  · rw [update_fst_of_refused hready w] at h
    cases h

/-! ## Calls that cannot begin -/

theorem execute_of_check_error {a : Adapter σ} {memory : Bindings} {e : Error}
    (h : a.check memory = .error e) (w : World σ) : a.execute memory w = (.error e, w) := by
  unfold execute
  rw [h]

theorem execute_of_unbuilt {a : Adapter σ} {memory : Bindings} (hcheck : a.check memory = .ok ())
    (h : a.inner = none) (w : World σ) :
    a.execute memory w = (.error (.memory (.unstaged a.name)), w) := by
  unfold execute
  rw [hcheck, h]

/-! ## Histories -/

/-- What holds of an adapter and is kept when it follows descriptors holds after every history. -/
theorem after_induction {P : Adapter σ → Prop} (hstep : ∀ a ds, P a → P (a.follow ds))
    {s : Adapter σ × World σ} (h : P s.1) (calls : List (Call σ)) : P (after s calls).1 := by
  induction calls generalizing s with
  | nil => exact h
  | cons c calls ih =>
    refine ih (s := perform s c) ?_
    cases c with
    | update memory =>
      show P (s.1.update memory s.2).2.1
      rw [update_adapter]
      exact hstep s.1 _ h
    | execute memory => exact h
    | elsewhere change => exact h

theorem after_inner (s : Adapter σ × World σ) (calls : List (Call σ)) :
    (Adapter.after s calls).1.inner = s.1.inner :=
  after_induction (P := fun a => a.inner = s.1.inner)
    (fun a ds h => (a.follow_inner ds).trans h) rfl calls

theorem Plans.after {s : Adapter σ × World σ} {target descs : Descriptors}
    (h : s.1.Plans target descs) (calls : List (Call σ)) :
    (Adapter.after s calls).1.Plans target descs :=
  after_induction (P := fun a => a.Plans target descs) (fun _ ds ha => ha.follow ds) h calls

end Adapter

end KernelDispatch
