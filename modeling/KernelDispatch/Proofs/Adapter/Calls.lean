import KernelDispatch.Proofs.Adapter.Handover
import KernelDispatch.Proofs.Dispatch.Recorded

/-
  Calls of what has been built, directly or behind an adapter, and whatever memories the operands
  share. A call fails before anything runs, or it is a run of the runner on operands that stand for
  the caller's (`Instance.RunsAs`): they have the same shapes and element types, the inputs have the
  same logical elements, and outputs come back with the logical elements that the runner left. What
  else is held keeps its bytes (`Instance.Reaches.frame`).
-/

namespace KernelDispatch

variable {σ : Type}

/-- In the world `w₁` the memory `m'` stands for the memory `m` of an operand in the world `w`. -/
structure World.StandsFor (w w₁ : World σ) (p : Operand) (m m' : Memory) : Prop where
  elementType : m'.desc.elementType = m.desc.elementType
  shape : m'.desc.shape = m.desc.shape
  elements : p.isInput = true → w₁.store.SameElements m' w.store m

/-- A run changes no memory but those of its outputs. -/
def Runner.WritesOutputs (r : Runner σ) : Prop :=
  ∀ b s c, (∀ p m, b.get? p = some m → p.isOutput = true → m.cell ≠ c) →
    (r.execute b s).2.store.bytes c = s.store.bytes c

namespace Adapter

variable {a : Adapter σ} {memory : Bindings} {w : World σ} {h : Handover σ}

theorem Provides.standsFor (hp : a.Provides memory w h) (ho : w.Owns memory) (p : Operand) :
    Option.Rel (w.StandsFor h.world p) (memory.get? p) (h.operands.get? p) := by
  cases hc : a.conversions.get? p with
  | none =>
    rw [hp.kept p hc]
    cases hm : memory.get? p with
    | none => exact .none
    | some m =>
      refine .some ⟨rfl, rfl, fun _ => Store.SameElements.refl_of_contents ?_⟩
      exact hp.borrows.extension.bytes _ (ho.held p m hm)
  | some d =>
    obtain ⟨m, m', hm, hm', hsub⟩ := hp.substituted p d hc
    rw [hm, hm']
    obtain ⟨htype, hshape, -⟩ := (Descriptor.checkConversion_eq_ok_iff _ _).1 hsub.check
    refine .some ⟨by rw [hsub.desc, htype], by rw [hsub.desc, hshape], fun hinput => ?_⟩
    obtain ⟨n, hn, hbytes⟩ := hsub.bytes
    rw [substituteBytes, if_pos hinput, ← hsub.desc] at hbytes
    rw [← hsub.desc] at hn
    exact Store.sameElements_of_moved (hsub.desc ▸ hsub.check) (ho.fits p m hm)
      (by rw [Bytes.size_zeros]; exact hn) hbytes

/-- Whatever the runner did to its operands, the outputs can be converted back. -/
theorem Provides.convertBack (hp : a.Provides memory w h) (v : World σ) : ∃ store,
    World.convertOperands h.operands memory (a.conversions.keys.filter Operand.isOutput) v =
      (.ok (), { v with store }) := by
  refine World.convertOperands_eq_ok h.operands memory _ (fun p hmem => ?_) v
  obtain ⟨⟨d, hc⟩, -⟩ := (OrderedMap.mem_filter_keys_iff _ _ p).1 hmem
  obtain ⟨m, m', hm, hm', hsub⟩ := hp.substituted p d hc
  refine ⟨m', m, hm', hm, ?_⟩
  rw [hsub.desc]
  exact Descriptor.checkConversion_symm hsub.check

/-- Whatever the runner did, its operands can be converted back, so a call ends as its run does. -/
theorem runOnce_result (hh : a.handOver memory w = .ok h) :
    (a.runOnce memory h).1 = (h.runner.execute h.operands h.world.toSession).1 := by
  have hreach := reaches_of_handOver hh
  obtain ⟨h', hh', -, hds⟩ := hreach.handOver w
  rw [hh] at hh'
  cases hh'
  unfold runOnce World.run
  rcases h.runner.execute h.operands h.world.toSession with ⟨_ | _, s⟩
  · rfl
  · obtain ⟨store, hback⟩ := hreach.convertsBack hds { h.world with toSession := s }
    show (World.convertOperands h.operands memory _ _).1 = _
    rw [hback]

/-- A destination that shares its memory with no other one ends up with the logical elements that
    the runner left in what stood for it. -/
theorem Provides.returned (hp : a.Provides memory w h) (ho : w.Owns memory)
    (hconf : Confined h.runner.execute) {s : Session σ}
    (hrun : h.runner.execute h.operands h.world.toSession = (.ok (), s)) {p : Operand}
    {m m' : Memory} (hp₁ : p.isOutput = true) (hm : memory.get? p = some m)
    (hm' : h.operands.get? p = some m')
    (hother : ∀ q n, q.isOutput = true → q ≠ p → memory.get? q = some n → n.cell ≠ m.cell) :
    (a.runOnce memory h).2.store.SameElements m s.store m' := by
  obtain ⟨store, hback⟩ := hp.convertBack { h.world with toSession := s }
  have hout := a.conversions.mem_filter_keys_iff Operand.isOutput
  have hsettle : (a.runOnce memory h).2.store = store := by
    unfold runOnce World.run
    rw [hrun]
    show (World.convertOperands h.operands memory _ _).2.store = _
    rw [hback]
  rw [hsettle]
  cases hc : a.conversions.get? p with
  | none =>
    rw [hp.kept p hc, hm] at hm'
    cases hm'
    refine Store.SameElements.refl_of_contents ?_
    have hframe : (World.convertOperands h.operands memory
        (a.conversions.keys.filter Operand.isOutput)
        { h.world with toSession := s }).2.store.bytes m.cell = s.store.bytes m.cell := by
      refine World.convertOperands_frame (fun q hq n hn => ?_) _
      obtain ⟨⟨d, hqc⟩, hqo⟩ := (hout q).1 hq
      refine hother q n hqo (fun heq => ?_) hn
      rw [heq, hc] at hqc
      cases hqc
    rw [hback] at hframe
    exact hframe
  | some d =>
    obtain ⟨m₁, m₂, hm₁, hm₂, hsub⟩ := hp.substituted p d hc
    rw [hm] at hm₁
    rw [hm'] at hm₂
    cases hm₁
    cases hm₂
    have howns := hp.owns ho
    have hheld := hp.borrows.extension.held _ (ho.held p m hm)
    have hexist := hconf.exist h.operands h.world.toSession
    have hsize := hconf.size h.operands h.world.toSession
    rw [hrun] at hexist hsize
    have hmoved := World.convertOperands_moved (a.conversions.nodup_keys.filter _) hback
      ((hout p).2 ⟨⟨d, hc⟩, hp₁⟩) hm' hm (Nat.lt_of_lt_of_le hheld.1 hexist)
      (fun q _ n hn heq => hsub.fresh (heq ▸ ho.held q n hn))
      (fun q hq hne n hn => hother q n ((hout q).1 hq).2 hne hn)
    refine Store.sameElements_of_moved (Descriptor.checkConversion_symm ?_) ?_ ?_ hmoved
    · rw [hsub.desc]
      exact hsub.check
    · unfold Store.Fits Store.contents
      rw [hsize _ (howns.held p m' hm').1]
      exact howns.fits p m' hm'
    · show m.desc.requiredBytes = .ok (s.store.bytes m.cell).size
      rw [hsize _ hheld.1, hp.borrows.extension.bytes _ (ho.held p m hm)]
      exact ho.fits p m hm

/-- What was held before a call and is the memory of no output keeps its bytes. -/
theorem Provides.frame (hp : a.Provides memory w h) (hwrites : h.runner.WritesOutputs) {c : Cell}
    (hc : w.Held c) (hout : ∀ p m, memory.get? p = some m → p.isOutput = true → m.cell ≠ c) :
    (a.runOnce memory h).2.store.bytes c = w.store.bytes c := by
  -- an output that the runner writes is the caller's, or a substitute in a cell that nobody held
  have hrun : (h.runner.execute h.operands h.world.toSession).2.store.bytes c =
      w.store.bytes c := by
    refine (hwrites _ _ c fun p m' hm' hpo => ?_).trans (hp.borrows.extension.bytes c hc)
    cases hconv : a.conversions.get? p with
    | none =>
      rw [hp.kept p hconv] at hm'
      exact hout p m' hm' hpo
    | some d =>
      obtain ⟨_, m'', _, hm'', hsub⟩ := hp.substituted p d hconv
      rw [hm'] at hm''
      cases hm''
      exact fun heq => hsub.fresh (heq ▸ hc)
  unfold runOnce World.run
  rcases hexec : h.runner.execute h.operands h.world.toSession with ⟨_ | _, s⟩
  · rw [hexec] at hrun
    exact hrun
  · rw [hexec] at hrun
    refine (World.convertOperands_frame (fun p hp' m hm => ?_) _).trans hrun
    exact hout p m hm ((OrderedMap.mem_filter_keys_iff _ _ p).1 hp').2

end Adapter

namespace Instance

/-- A call on `memory` is a run of `r` on `operands`, which stand for the caller's. -/
structure RunsAs (built : Instance σ) (memory : Bindings) (w : World σ) (r : Runner σ)
    (operands : Bindings) (w₁ : World σ) : Prop where
  runner_eq : built.runner? = some r
  descriptors_eq : operands.descriptors = built.handed memory.descriptors
  owns : w₁.Owns operands
  stands : ∀ p, Option.Rel (w.StandsFor w₁ p) (memory.get? p) (operands.get? p)
  result : (built.execute memory w).1 = (r.execute operands w₁.toSession).1
  /-- A destination that shares its memory with no other one has the logical elements that the
      runner left. -/
  returned : ∀ s, r.execute operands w₁.toSession = (.ok (), s) → ∀ p m m', p.isOutput = true →
    memory.get? p = some m → operands.get? p = some m' →
      (∀ q n, q.isOutput = true → q ≠ p → memory.get? q = some n → n.cell ≠ m.cell) →
        (built.execute memory w).2.store.SameElements m s.store m'

/-- A call on these operands gets as far as running something. -/
def Reaches (memory : Bindings) : Instance σ → Prop
  | direct _ _ => True
  | adapted a => a.Reaches memory

theorem Reaches.runner?_eq_some {built : Instance σ} {memory : Bindings}
    (h : built.Reaches memory) : ∃ r, built.runner? = some r := by
  cases built with
  | direct name r => exact ⟨r, rfl⟩
  | adapted a => exact Adapter.Reaches.built h

/-- What has been built runs what it has been built around on operands that stand for the
    caller's. -/
theorem Reaches.runsAs {built : Instance σ} {memory : Bindings} (hr : built.Reaches memory)
    {w : World σ} (ho : w.Owns memory)
    (hconf : ∀ r, built.runner? = some r → Confined r.execute) :
    ∃ r operands w₁, built.RunsAs memory w r operands w₁ := by
  cases built with
  | direct name r =>
    refine ⟨r, memory, w, rfl, rfl, ho, fun p => ?_, rfl, fun s hrun p m m' _ hm hm' _ => ?_⟩
    · cases memory.get? p with
      | none => exact .none
      | some m => exact .some ⟨rfl, rfl, fun _ => .refl_of_contents rfl⟩
    · rw [hm] at hm'
      cases hm'
      refine .refl_of_contents ?_
      show (r.execute memory w.toSession).2.store.contents m = _
      rw [hrun]
  | adapted a =>
    obtain ⟨h, hh, hp, -⟩ := Adapter.provides_of_reaches hr ho
    have hexec : (adapted a).execute memory w = a.runOnce memory h := by
      show a.execute memory w = _
      rw [Adapter.execute_eq, hh]
    refine ⟨h.runner, h.operands, h.world, hp.built, hp.descriptors, hp.owns ho,
      hp.standsFor ho, ?_, fun s hrun p m m' hpo hm hm' hother => ?_⟩
    · rw [hexec]
      exact Adapter.runOnce_result hh
    · rw [hexec]
      exact hp.returned ho (hconf _ hp.built) hrun hpo hm hm' hother

/-- A call leaves alone what was held before and is the memory of no output. -/
theorem Reaches.frame {built : Instance σ} {memory : Bindings} (hr : built.Reaches memory)
    {w : World σ} (ho : w.Owns memory)
    (hwrites : ∀ r, built.runner? = some r → r.WritesOutputs) {c : Cell} (hc : w.Held c)
    (hout : ∀ p m, memory.get? p = some m → p.isOutput = true → m.cell ≠ c) :
    (built.execute memory w).2.store.bytes c = w.store.bytes c := by
  cases built with
  | direct name r => exact hwrites r rfl memory w.toSession c hout
  | adapted a =>
    obtain ⟨h, hh, hp, -⟩ := Adapter.provides_of_reaches hr ho
    show (a.execute memory w).2.store.bytes c = _
    rw [Adapter.execute_eq, hh]
    exact hp.frame (hwrites _ hp.built) hc hout

/-- What consented can be called. -/
theorem reaches_of_update {built built' : Instance σ} {memory : Bindings} {w w' : World σ}
    (h : built.update memory w = (.ok true, built', w')) : built'.Reaches memory := by
  cases built with
  | direct name r =>
    simp only [update, Prod.mk.injEq] at h
    obtain ⟨-, rfl, -⟩ := h
    trivial
  | adapted a =>
    simp only [update, Prod.mk.injEq] at h
    obtain ⟨hanswer, rfl, -⟩ := h
    show (a.update memory w).2.1.Reaches memory
    rw [Adapter.update_adapter]
    exact Adapter.reaches_of_update hanswer

end Instance

end KernelDispatch
