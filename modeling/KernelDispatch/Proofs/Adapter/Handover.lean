import KernelDispatch.Proofs.Adapter.Confined

/-
  The bytes that travel through an adapter. What a kernel is handed is the caller's memory where
  nothing is converted, and elsewhere a substitute in a cell that nobody held, with the input
  moved into it or with zeros (`prepares_of_reaches`). Afterwards outputs are moved back, and the
  other memories of the caller are left alone (`settles`).
-/

namespace KernelDispatch

theorem OrderedMap.mem_filter_keys_iff {κ α : Type} [KeyOrder κ] (m : OrderedMap κ α)
    (f : κ → Bool) (k : κ) : k ∈ m.keys.filter f ↔ (∃ v, m.get? k = some v) ∧ f k = true := by
  rw [List.mem_filter, mem_keys_iff]

namespace World

variable {σ : Type}

theorem Extends.preserves {w w' : World σ} (h : w.Extends w') (hs : w'.PoolSound) :
    w.Preserves w' :=
  ⟨h.held, fun c hc => by rw [h.bytes c hc], fun _ => hs⟩

/-- Writing to cells that nobody held before is still borrowing. -/
theorem Borrows.withStore {w w' : World σ} {loans : List Loan} (h : w.Borrows loans w')
    {store : Store} (hcells : store.cells.size = w'.store.cells.size)
    (hbytes : ∀ c, w.Held c → store.bytes c = w'.store.bytes c) :
    w.Borrows loans { w' with store } := by
  have hheld : ∀ c, w'.Held c → ({ w' with store } : World σ).Held c :=
    fun c hc => ⟨hcells ▸ hc.1, hc.2⟩
  refine ⟨⟨fun c hc => hheld c (h.extension.held c hc), fun c hc => ?_, h.extension.ambient⟩,
    ⟨fun b hb => hcells ▸ h.sound.exist b hb, h.sound.nodup⟩, h.fresh,
    fun loan hl => hheld _ (h.held loan hl), h.nodup⟩
  exact (hbytes c hc).trans (h.extension.bytes c hc)

/-! ## Staged operands -/

/-- Operands that are those in `memory`, except where other descriptors are wanted: there they are
    zeroed memories in cells that nobody held, each of its own. -/
structure StandIns (w : World σ) (memory : Bindings) (wanted : Descriptors) (operands : Bindings)
    (w' : World σ) : Prop where
  kept : ∀ p, wanted.get? p = none → operands.get? p = memory.get? p
  lent : ∀ p d, wanted.get? p = some d → ∃ m n, operands.get? p = some m ∧ m.desc = d ∧
    ¬ w.Held m.cell ∧ w'.Held m.cell ∧ d.requiredBytes = .ok n ∧
      w'.store.contents m = Bytes.zeros n
  apart : ∀ p q d d' m m', wanted.get? p = some d → wanted.get? q = some d' →
    operands.get? p = some m → operands.get? q = some m' → m.cell = m'.cell → p = q

theorem stageFrom_standIns {memory : Bindings} {wanted : Descriptors}
    (hbound : ∀ p d, wanted.get? p = some d → ∃ m, memory.get? p = some m)
    (hall : wanted.Allocatable) {w : World σ} (hs : w.PoolSound) :
    ∃ operands loans w', stageFrom memory wanted.entries memory [] w = (.ok operands, loans, w') ∧
      w.Borrows loans w' ∧ w.StandIns memory wanted operands w' := by
  have hentry : ∀ p d, (p, d) ∈ wanted.entries ↔ wanted.get? p = some d :=
    fun p d => (wanted.get?_eq_some_iff).symm
  obtain ⟨operands, loans, w', hstage, hborrows, hstages⟩ := stageFrom_stages wanted.ordered
    (fun e he => hbound e.1 e.2 ((hentry e.1 e.2).1 he))
    (fun e he => hall e.1 e.2 ((hentry e.1 e.2).1 he)) memory [] hs
  refine ⟨operands, loans, w', hstage, hborrows, fun p hnone => ?_, fun p d hd => ?_, ?_⟩
  · refine hstages.others p fun e he heq => ?_
    have hsome := (hentry e.1 e.2).1 he
    rw [heq, hnone] at hsome
    cases hsome
  · exact hstages.lent (p, d) ((hentry p d).2 hd)
  · intro p q d d' m m' hp hq hm hm' heq
    exact hstages.apart (p, d) ((hentry p d).2 hp) (q, d') ((hentry q d').2 hq) m m' hm hm' heq

theorem StandIns.fresh {w w' : World σ} {memory operands : Bindings} {wanted : Descriptors}
    (h : w.StandIns memory wanted operands w') {p : Operand} {d : Descriptor} {m : Memory}
    (hp : wanted.get? p = some d) (hm : operands.get? p = some m) : ¬ w.Held m.cell := by
  obtain ⟨m', n, hm', -, hfresh, -⟩ := h.lent p d hp
  rw [hm] at hm'
  cases hm'
  exact hfresh

theorem StandIns.descriptors {w w' : World σ} {memory operands : Bindings} {wanted : Descriptors}
    (h : w.StandIns memory wanted operands w') :
    operands.descriptors = memory.descriptors.replacedBy wanted := by
  refine OrderedMap.ext_get? fun p => ?_
  rw [Bindings.get?_descriptors, OrderedMap.get?_replacedBy, Bindings.get?_descriptors]
  cases hp : wanted.get? p with
  | none => rw [h.kept p hp, Option.none_or]
  | some d =>
    obtain ⟨m, n, hm, hdesc, -⟩ := h.lent p d hp
    rw [hm, Option.some_or, Option.map_some, hdesc]

/-- Operands with stand-ins share no memory if those in `memory` do not. -/
theorem StandIns.distinct {w w' : World σ} {memory operands : Bindings} {wanted : Descriptors}
    (h : w.StandIns memory wanted operands w') (ho : w.Owns memory) (hd : memory.Distinct) :
    operands.Distinct := by
  intro p q m m' hm hm' heq
  cases hp : wanted.get? p with
  | none =>
    rw [h.kept p hp] at hm
    cases hq : wanted.get? q with
    | none =>
      rw [h.kept q hq] at hm'
      exact hd p q m m' hm hm' heq
    | some d => exact absurd (heq ▸ ho.held p m hm) (h.fresh hq hm')
  | some d =>
    cases hq : wanted.get? q with
    | none =>
      rw [h.kept q hq] at hm'
      exact absurd (heq.symm ▸ ho.held q m' hm') (h.fresh hp hm)
    | some d' => exact h.apart p q d d' m m' hp hq hm hm' heq

/-- Inputs are moved from memories that are held into memories that were not. -/
theorem StandIns.inputs_apart {w w' : World σ} {memory operands : Bindings} {wanted : Descriptors}
    (h : w.StandIns memory wanted operands w') (ho : w.Owns memory) :
    Apart memory operands (wanted.keys.filter Operand.isInput) := by
  refine ⟨fun p _ q hq m m' hm hm' heq => ?_, fun p hp q hq m m' hm hm' heq => ?_⟩
  · obtain ⟨⟨d, hq⟩, -⟩ := (OrderedMap.mem_filter_keys_iff _ _ q).1 hq
    exact h.fresh hq hm' (heq ▸ ho.held p m hm)
  · obtain ⟨⟨d, hp⟩, -⟩ := (OrderedMap.mem_filter_keys_iff _ _ p).1 hp
    obtain ⟨⟨d', hq⟩, -⟩ := (OrderedMap.mem_filter_keys_iff _ _ q).1 hq
    exact h.apart p q d d' m m' hp hq hm hm' heq

end World

namespace Adapter

variable {σ : Type}

/-- The bytes of the substitute for a memory when a kernel gets to see it: the input moved into
    zeros, or zeros. -/
def substituteBytes (s : Store) (p : Operand) (m : Memory) (d : Descriptor) (n : Nat) : Bytes :=
  if p.isInput then
    (s.contents m).rearranged m.desc.elementType.width m.desc.sizes m.desc.layout (Bytes.zeros n)
      d.layout
  else Bytes.zeros n

/-- A memory that stands for another one: a cell that nobody held before, with the bytes that the
    kernel is to see. -/
structure Substitutes (w : World σ) (p : Operand) (m : Memory) (d : Descriptor) (m' : Memory)
    (w' : World σ) : Prop where
  check : m.desc.checkConversion d = .ok ()
  desc : m'.desc = d
  fresh : ¬ w.Held m'.cell
  held : w'.Held m'.cell
  bytes : ∃ n, d.requiredBytes = .ok n ∧ w'.store.contents m' = substituteBytes w.store p m d n

/-- What an adapter hands to its kernel for the operands in `memory`, which may share memories. -/
structure Provides (a : Adapter σ) (memory : Bindings) (w : World σ) (h : Handover σ) : Prop where
  built : a.inner = some h.runner
  descriptors : h.operands.descriptors = memory.descriptors.replacedBy a.conversions
  borrows : w.Borrows h.loans h.world
  kept : ∀ p, a.conversions.get? p = none → h.operands.get? p = memory.get? p
  substituted : ∀ p d, a.conversions.get? p = some d → ∃ m m', memory.get? p = some m ∧
    h.operands.get? p = some m' ∧ Substitutes w p m d m' h.world

/-- What an adapter hands to its kernel for the operands in `memory`. -/
structure Prepares (a : Adapter σ) (memory : Bindings) (w : World σ) (h : Handover σ) : Prop where
  built : a.inner = some h.runner
  descriptors : h.operands.descriptors = memory.descriptors.replacedBy a.conversions
  borrows : w.Borrows h.loans h.world
  kept : ∀ p, a.conversions.get? p = none → h.operands.get? p = memory.get? p
  substituted : ∀ p d, a.conversions.get? p = some d → ∃ m m', memory.get? p = some m ∧
    h.operands.get? p = some m' ∧ Substitutes w p m d m' h.world
  distinct : h.operands.Distinct

theorem provides_of_reaches {a : Adapter σ} {memory : Bindings} (hr : a.Reaches memory)
    {w : World σ} (ho : w.Owns memory) :
    ∃ h, a.handOver memory w = .ok h ∧ a.Provides memory w h ∧
      (memory.Distinct → h.operands.Distinct) := by
  obtain ⟨hconv, ⟨runner, hinner⟩, hall⟩ := hr
  have hwanted : ∀ p d, a.conversions.get? p = some d →
      ∃ m, memory.get? p = some m ∧ m.desc.checkConversion d = .ok () :=
    fun p d hd => bound_of_convertsTo hconv hd
  have hin := a.conversions.mem_filter_keys_iff Operand.isInput
  obtain ⟨operands, loans, w₁, hstage, hborrows, hstand⟩ := World.stageFrom_standIns
    (fun p d hd => (hwanted p d hd).imp fun _ hm => hm.1) hall ho.sound
  obtain ⟨store, hconvert, hcells, hmoved, hframe⟩ := World.convertOperands_spec
    (a.conversions.nodup_keys.filter _) (hstand.inputs_apart ho) (w := w₁) (fun p hp => by
      obtain ⟨⟨d, hp⟩, -⟩ := (hin p).1 hp
      obtain ⟨m, hm, hcheck⟩ := hwanted p d hp
      obtain ⟨m', n, hm', hdesc, -, hheld, -⟩ := hstand.lent p d hp
      exact ⟨m, m', hm, hm', by rw [hdesc]; exact hcheck, hheld.1⟩)
  have hunmoved : ∀ c, w.Held c → store.bytes c = w₁.store.bytes c := by
    intro c hc
    refine hframe c fun p hp m' hm' heq => ?_
    obtain ⟨⟨d, hp⟩, -⟩ := (hin p).1 hp
    exact hstand.fresh hp hm' (heq ▸ hc)
  refine ⟨⟨runner, operands, loans, { w₁ with store }⟩, ?_, ⟨hinner, hstand.descriptors,
    hborrows.withStore hcells hunmoved, hstand.kept, fun p d hp => ?_⟩, hstand.distinct ho⟩
  · have hcheck := (a.check_eq_ok_iff memory).2 hconv
    simp only [Adapter.handOver, hcheck, hinner, hstage, hconvert]
  · obtain ⟨m, hm, hcheck⟩ := hwanted p d hp
    obtain ⟨m', n, hm', hdesc, hfresh, hheld, hn, hzero⟩ := hstand.lent p d hp
    refine ⟨m, m', hm, hm', hcheck, hdesc, hfresh, ⟨hcells ▸ hheld.1, hheld.2⟩, n, hn, ?_⟩
    unfold substituteBytes
    by_cases hinput : p.isInput = true
    · rw [if_pos hinput]
      show store.contents m' = _
      rw [hmoved p ((hin p).2 ⟨⟨d, hp⟩, hinput⟩) m m' hm hm', Store.moved, hzero, hdesc]
      unfold Store.contents
      rw [hborrows.extension.bytes _ (ho.held p m hm)]
    · rw [if_neg hinput, ← hzero]
      refine hframe m'.cell fun q hq m'' hm'' heq => hinput ?_
      obtain ⟨⟨d', hq⟩, hqin⟩ := (hin q).1 hq
      rw [← hstand.apart q p d' d m'' m' hq hp hm'' hm' heq]
      exact hqin

theorem prepares_of_reaches {a : Adapter σ} {memory : Bindings} (hr : a.Reaches memory)
    (hd : memory.Distinct) {w : World σ} (ho : w.Owns memory) :
    ∃ h, a.handOver memory w = .ok h ∧ a.Prepares memory w h := by
  obtain ⟨h, hh, hp, hdistinct⟩ := provides_of_reaches hr ho
  exact ⟨h, hh, hp.built, hp.descriptors, hp.borrows, hp.kept, hp.substituted, hdistinct hd⟩

@[simp] theorem size_substituteBytes (s : Store) (p : Operand) (m : Memory) (d : Descriptor)
    (n : Nat) : (substituteBytes s p m d n).size = n := by
  unfold substituteBytes
  split
  · rw [Bytes.size_rearranged, Bytes.size_zeros]
  · rw [Bytes.size_zeros]

/-- The operands that are handed over exist in the sizes of their descriptors. -/
theorem Provides.owns {a : Adapter σ} {memory : Bindings} {w : World σ} {h : Handover σ}
    (hp : a.Provides memory w h) (ho : w.Owns memory) : h.world.Owns h.operands := by
  have hcases : ∀ p m', h.operands.get? p = some m' →
      h.world.Held m'.cell ∧ h.world.store.Fits m' := by
    intro p m' hm'
    cases hc : a.conversions.get? p with
    | none =>
      rw [hp.kept p hc] at hm'
      have howned := (hp.borrows.extension.preserves hp.borrows.sound).owns ho
      exact ⟨howned.held p m' hm', howned.fits p m' hm'⟩
    | some d =>
      obtain ⟨m, m₁, -, hm₁, hsub⟩ := hp.substituted p d hc
      rw [hm'] at hm₁
      cases hm₁
      obtain ⟨n, hn, hbytes⟩ := hsub.bytes
      refine ⟨hsub.held, ?_⟩
      unfold Store.Fits
      rw [hbytes, size_substituteBytes, hsub.desc]
      exact hn
  exact ⟨hp.borrows.sound, fun p m hm => (hcases p m hm).1, fun p m hm => (hcases p m hm).2⟩

/-! ## After the run -/

/-- What a call leaves when its kernel has run and ended in the session `s`: outputs are moved back
    from their substitutes, and all other memories are as the kernel left them. -/
structure Settles (a : Adapter σ) (memory : Bindings) (h : Handover σ) (s : Session σ)
    (w' : World σ) : Prop where
  output : ∀ p d m m', a.conversions.get? p = some d → p.isOutput = true →
    memory.get? p = some m → h.operands.get? p = some m' → w'.store.contents m = s.store.moved m' m
  other : ∀ p m, memory.get? p = some m → (a.conversions.get? p = none ∨ p.isOutput = false) →
    w'.store.contents m = s.store.contents m
  ambient : w'.ambient = s.ambient

/-- A kernel does not reach the memories that substitutes stand for. -/
theorem Prepares.untouched {a : Adapter σ} {memory : Bindings} {w : World σ} {h : Handover σ}
    (hp : a.Prepares memory w h) (hd : memory.Distinct) (ho : w.Owns memory)
    (hconf : Confined h.runner.execute) {p : Operand} {d : Descriptor} {m : Memory}
    (hc : a.conversions.get? p = some d) (hm : memory.get? p = some m) :
    (h.runner.execute h.operands h.world.toSession).2.store.contents m = w.store.contents m := by
  have hheld := ho.held p m hm
  have hreach : ∀ q m', h.operands.get? q = some m' → m'.cell ≠ m.cell := by
    intro q m' hm' heq
    cases hq : a.conversions.get? q with
    | none =>
      rw [hp.kept q hq] at hm'
      rw [hd q p m' m hm' hm heq, hc] at hq
      cases hq
    | some d' =>
      obtain ⟨_, m'', _, hm'', hsub⟩ := hp.substituted q d' hq
      rw [hm'] at hm''
      cases hm''
      exact hsub.fresh (heq ▸ hheld)
  have hframe := hconf.frame h.operands h.world.toSession m.cell
    (hp.borrows.extension.held _ hheld).1 hreach
  exact hframe.trans (hp.borrows.extension.bytes _ hheld)

/-- Outputs are moved from memories that nobody held back into those of the caller. -/
theorem Prepares.outputs_apart {a : Adapter σ} {memory : Bindings} {w : World σ} {h : Handover σ}
    (hp : a.Prepares memory w h) (hd : memory.Distinct) (ho : w.Owns memory) :
    World.Apart h.operands memory (a.conversions.keys.filter Operand.isOutput) := by
  refine ⟨fun p hpo q _ m m' hm hm' heq => ?_, fun p _ q _ m m' hm hm' heq => ?_⟩
  · obtain ⟨⟨d, hc⟩, -⟩ := (OrderedMap.mem_filter_keys_iff _ _ p).1 hpo
    obtain ⟨_, m'', _, hm'', hs⟩ := hp.substituted p d hc
    rw [hm] at hm''
    cases hm''
    exact hs.fresh (heq ▸ ho.held q m' hm')
  · exact hd p q m m' hm hm' heq

theorem settles {a : Adapter σ} {memory : Bindings} {w : World σ} {h : Handover σ}
    (hp : a.Prepares memory w h) (hd : memory.Distinct) (ho : w.Owns memory)
    (hconf : h.runner.Confined) {s : Session σ}
    (hrun : h.runner.execute h.operands h.world.toSession = (.ok (), s)) :
    ∃ w', a.runOnce memory h = (.ok (), w') ∧ a.Settles memory h s w' := by
  have hout := a.conversions.mem_filter_keys_iff Operand.isOutput
  have hexist := hconf.execute.exist h.operands h.world.toSession
  rw [hrun] at hexist
  obtain ⟨store, hconvert, -, hmoved, hframe⟩ := World.convertOperands_spec
    (a.conversions.nodup_keys.filter _) (hp.outputs_apart hd ho)
    (w := { h.world with toSession := s })
    (fun p hpo => by
      obtain ⟨⟨d, hc⟩, -⟩ := (hout p).1 hpo
      obtain ⟨m, m', hm, hm', hs⟩ := hp.substituted p d hc
      have hheld := hp.borrows.extension.held _ (ho.held p m hm)
      refine ⟨m', m, hm', hm, ?_, Nat.lt_of_lt_of_le hheld.1 hexist⟩
      rw [hs.desc]
      exact Descriptor.checkConversion_symm hs.check)
  have hsettle : a.runOnce memory h =
      (.ok (), ({ h.world with toSession := { s with store } } : World σ).giveBack h.loans) := by
    unfold runOnce World.run
    rw [hrun]
    show ((World.convertOperands h.operands memory _ _).1,
      (World.convertOperands h.operands memory _ _).2.giveBack h.loans) = _
    rw [hconvert]
  refine ⟨_, hsettle, fun p d m m' hc hpo hm hm' => ?_, fun p m hm hother => ?_, rfl⟩
  · exact hmoved p ((hout p).2 ⟨⟨d, hc⟩, hpo⟩) m' m hm' hm
  · refine hframe m.cell fun q hq m'' hm'' heq => ?_
    obtain ⟨⟨d, hc⟩, hqo⟩ := (hout q).1 hq
    rw [hd q p m'' m hm'' hm heq] at hc hqo
    rcases hother with hnone | hin
    · rw [hc] at hnone
      cases hnone
    · rw [hqo] at hin
      cases hin

end Adapter

end KernelDispatch
