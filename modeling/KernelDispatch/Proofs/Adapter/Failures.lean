import KernelDispatch.Proofs.Adapter.Preconverted

/-
  Calls of an adapter that fail. Whatever the reason is and however far the call gets, the memories
  of converted operands are as they were before: until its kernel is done, a call writes to
  substitutes, and the conversions back, which write to the caller's outputs, are not reached or all
  succeed (`failed_call_leaves_converted`).
-/

namespace KernelDispatch

variable {σ : Type}

/-- Staged operands exist in the sizes of their descriptors. -/
theorem World.StandIns.owns {w w' : World σ} {memory operands : Bindings} {wanted : Descriptors}
    (h : w.StandIns memory wanted operands w') (ho : w'.Owns memory) : w'.Owns operands := by
  have hcases : ∀ p m, operands.get? p = some m → w'.Held m.cell ∧ w'.store.Fits m := by
    intro p m hm
    cases hp : wanted.get? p with
    | none =>
      rw [h.kept p hp] at hm
      exact ⟨ho.held p m hm, ho.fits p m hm⟩
    | some d =>
      obtain ⟨m', n, hm', hdesc, -, hheld, hn, hzero⟩ := h.lent p d hp
      rw [hm] at hm'
      cases hm'
      refine ⟨hheld, ?_⟩
      unfold Store.Fits
      rw [hzero, Bytes.size_zeros, hdesc]
      exact hn
  exact ⟨ho.sound, fun p m hm => (hcases p m hm).1, fun p m hm => (hcases p m hm).2⟩

namespace Adapter

/-! ## Calls that end before their kernel runs -/

theorem handOver_error_bytes {a : Adapter σ} {memory : Bindings} {w w' : World σ} {e : Error}
    (hs : w.PoolSound) (hh : a.handOver memory w = .error (e, w')) {c : Cell} (hc : w.Held c) :
    w'.store.bytes c = w.store.bytes c := by
  have hreach : ¬ a.Reaches memory := fun hr => by
    obtain ⟨o, ho, -⟩ := hr.handOver w
    rw [hh] at ho
    cases ho
  obtain ⟨result, loans, w₁, hstage, hborrows⟩ :=
    World.stageFrom_borrows memory a.conversions.entries memory [] hs
  unfold handOver at hh
  cases hcheck : a.check memory with
  | error e =>
    simp only [hcheck, Except.error.injEq, Prod.mk.injEq] at hh
    rw [← hh.2]
  | ok =>
    cases hinner : a.inner with
    | none =>
      simp only [hcheck, hinner, Except.error.injEq, Prod.mk.injEq] at hh
      rw [← hh.2]
    | some runner =>
      cases result with
      | error e =>
        simp only [hcheck, hinner, hstage, Except.error.injEq, Prod.mk.injEq] at hh
        rw [← hh.2, World.giveBack_store]
        exact hborrows.extension.bytes c hc
      | ok operands => exact absurd (reaches_of_stageFrom hcheck hinner hstage) hreach

/-! ## Conversions after the check -/

/-- Once operands have been staged in the world `w`, the inputs are converted into them, the kernel
    runs, whatever it answers, and the outputs are converted back. All of this succeeds, and it is
    between memories that have the bytes that their descriptors ask for. -/
structure ConvertsThroughout (a : Adapter σ) (r : Runner σ) (memory operands : Bindings)
    (w : World σ) : Prop where
  staged : w.Owns memory ∧ w.Owns operands
  inputs : ∃ w₁, w.convertOperands memory operands (a.conversions.keys.filter Operand.isInput) =
    (.ok (), w₁) ∧
      let w₂ := (w₁.run (r.execute operands)).2
      w₂.Owns memory ∧ w₂.Owns operands ∧
        (w₂.convertOperands operands memory (a.conversions.keys.filter Operand.isOutput)).1 =
          .ok ()

theorem Reaches.convertsThroughout {a : Adapter σ} {memory : Bindings} (hr : a.Reaches memory)
    {r : Runner σ} (hconf : Confined r.execute) {w w₁ : World σ} (ho : w.Owns memory)
    {operands : Bindings} {loans : List Loan}
    (hstage : World.stageFrom memory a.conversions.entries memory [] w =
      (.ok operands, loans, w₁)) : a.ConvertsThroughout r memory operands w₁ := by
  obtain ⟨operands', loans', w₁', hstage', hborrows, hstand⟩ := World.stageFrom_standIns
    (fun p d hd => (bound_of_convertsTo hr.converts hd).imp fun _ hm => hm.1) hr.allocatable
    ho.sound
  rw [hstage] at hstage'
  cases hstage'
  have howned := (hborrows.extension.preserves hborrows.sound).owns ho
  have hstaged := hstand.owns howned
  obtain ⟨store, hin⟩ := World.convertOperands_eq_ok memory operands
    (a.conversions.keys.filter Operand.isInput)
    (fun p hp => hr.checkConversion hstand.descriptors (List.mem_filter.1 hp).1) w₁
  -- neither the conversions nor the kernel change a size
  have hkept := World.convertOperands_preserves memory operands
    (a.conversions.keys.filter Operand.isInput) w₁
  rw [hin] at hkept
  have hrun := hkept.trans (World.run_preserves hconf operands { w₁ with store })
  obtain ⟨store', hout⟩ := hr.convertsBack hstand.descriptors
    (({ w₁ with store } : World σ).run (r.execute operands)).2
  exact ⟨⟨howned, hstaged⟩, _, hin, hrun.owns howned, hrun.owns hstaged, congrArg Prod.fst hout⟩

/-! ## Failed calls -/

/-- A call that runs its kernel and fails has not reached the memories that substitutes stand
    for. -/
theorem Prepares.contents_of_error {a : Adapter σ} {memory : Bindings} {w : World σ}
    {h : Handover σ} (hp : a.Prepares memory w h) (hr : a.Reaches memory) (hd : memory.Distinct)
    (ho : w.Owns memory) (hconf : Confined h.runner.execute) {e : Error}
    (herr : (a.runOnce memory h).1 = .error e) {p : Operand} {d : Descriptor} {m : Memory}
    (hc : a.conversions.get? p = some d) (hm : memory.get? p = some m) :
    (a.runOnce memory h).2.store.contents m = w.store.contents m := by
  have hleft := hp.untouched hd ho hconf hc hm
  unfold runOnce World.run at herr ⊢
  rcases hexec : h.runner.execute h.operands h.world.toSession with ⟨_ | _, s⟩
  · rw [hexec] at hleft
    exact hleft
  · -- the kernel is done, and then nothing can fail
    rw [hexec] at herr
    obtain ⟨store, hout⟩ := hr.convertsBack hp.descriptors { h.world with toSession := s }
    change (World.convertOperands h.operands memory _ _).1 = _ at herr
    rw [hout] at herr
    cases herr

/-- For every adapter whose kernel writes to its operands only, after every history: a call that
    fails leaves the memories of all converted operands as they were, inputs and outputs. Once the
    conversions of a call have been checked and its operands staged, no conversion fails, neither
    those before the run of the kernel nor those after it. -/
theorem failed_call_leaves_converted {s : Adapter σ × World σ}
    (hconf : ∀ r, s.1.inner = some r → Confined r.execute) (calls : List (Call σ))
    {memory : Bindings} (hd : memory.Distinct) (ho : (Adapter.after s calls).2.Owns memory) :
    let a := (Adapter.after s calls).1
    let w := (Adapter.after s calls).2
    (∀ e, (a.execute memory w).1 = .error e → ∀ p d m, a.conversions.get? p = some d →
      memory.get? p = some m →
        (a.execute memory w).2.store.contents m = w.store.contents m) ∧
    (a.check memory = .ok () → ∀ r operands loans w₁, a.inner = some r →
      World.stageFrom memory a.conversions.entries memory [] w = (.ok operands, loans, w₁) →
        a.ConvertsThroughout r memory operands w₁) := by
  intro a w
  have hconf : ∀ r, a.inner = some r → Confined r.execute := fun r hr =>
    hconf r ((after_inner s calls).symm.trans hr)
  refine ⟨fun e herr p d m hc hm => ?_, fun hcheck r operands loans w₁ hinner hstage => ?_⟩
  · rw [execute_eq] at herr ⊢
    cases hh : a.handOver memory w with
    | error found =>
      exact handOver_error_bytes ho.sound hh (ho.held p m hm)
    | ok h =>
      rw [hh] at herr
      have hr := reaches_of_handOver hh
      obtain ⟨h', hh', hp⟩ := prepares_of_reaches hr hd ho
      rw [hh] at hh'
      cases hh'
      exact hp.contents_of_error hr hd ho (hconf _ hp.built) herr hc hm
  · exact (reaches_of_stageFrom hcheck hinner hstage).convertsThroughout (hconf r hinner) ho hstage

/-- A kernel that takes the channels last and fails when it is run for the first time. -/
def overheating : Script := { name := "packer", runs := [.failed] }

/-- The kernel of an adapter fails on two planar images, which are both converted. -/
theorem overheating_leaves_converted :
    ∃ a₀ w₁, Adapter.build (Script.kernel Arithmetic.single overheating) ⟨.zero⟩ channelsLastPair
        channelsLastPair (imagePair .channelsLast 0 1) fourImages = (.ok a₀, w₁) ∧
      let s := Adapter.after (a₀, w₁) [.update (imagePair .planar 0 1)]
      let memory := imagePair .planar 0 1
      (s.1.execute memory s.2).1.toOption = none ∧ s.1.conversions.keys = memory.keys ∧
      (∀ e, (s.1.execute memory s.2).1 = .error e → ∀ p d m, s.1.conversions.get? p = some d →
        memory.get? p = some m →
          (s.1.execute memory s.2).2.store.contents m = s.2.store.contents m) ∧
      (s.1.check memory = .ok () → ∀ r operands loans w, s.1.inner = some r →
        World.stageFrom memory s.1.conversions.entries memory [] s.2 = (.ok operands, loans, w) →
          s.1.ConvertsThroughout r memory operands w) := by
  obtain ⟨a₀, w₁, hbuild, hstore, hpool, hinner, hanswer, hkeys⟩ : ∃ a₀ w₁,
      Adapter.build (Script.kernel Arithmetic.single overheating) ⟨.zero⟩ channelsLastPair
        channelsLastPair (imagePair .channelsLast 0 1) fourImages = (.ok a₀, w₁) ∧
      w₁.store = fourImages.store ∧ w₁.scratch.pool = [] ∧
      a₀.inner = some ⟨overheating.update, overheating.execute Arithmetic.single ⟨.zero⟩⟩ ∧
      let s := Adapter.after (a₀, w₁) [.update (imagePair .planar 0 1)]
      (s.1.execute (imagePair .planar 0 1) s.2).1.toOption = none ∧
        s.1.conversions.keys = (imagePair .planar 0 1).keys :=
    ⟨_, _, rfl, rfl, rfl, rfl, by decide +kernel, by decide +kernel⟩
  have hconf : ∀ r, a₀.inner = some r → r.Confined := by
    intro r hr
    rw [hinner] at hr
    cases hr
    exact Script.confined _ _ _
  have howns : (Adapter.after (a₀, w₁) [.update (imagePair .planar 0 1)]).2.Owns
      (imagePair .planar 0 1) :=
    owns_after hconf (fun change hchange => by simp at hchange) (owns_imagePair hstore hpool)
  exact ⟨a₀, w₁, hbuild, hanswer, hkeys, failed_call_leaves_converted
    (fun r hr => (hconf r hr).execute) [.update (imagePair .planar 0 1)]
    (imagePair_distinct (by decide)) howns⟩

end Adapter

end KernelDispatch
