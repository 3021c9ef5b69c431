import KernelDispatch.Proofs.Adapter.Handover

/-
  Stores that mirror each other. Cells of one store are partners of cells of another, at most one
  each, and partners have the same bytes (`Store.Mirrors`). Conversions between operands in partner
  cells keep this (`convertOperands_mirrors`), and so does a step that depends on the bytes of its
  operands, and on which of them share a memory, but not on the cells (`Agrees.mirrors`). So two
  adapters with the same plan answer alike and leave the same bytes, wherever their substitutes are
  (`update_mirrors`, `execute_mirrors`).
-/

namespace KernelDispatch

/-- Every cell has at most one partner, on either side. -/
structure OneToOne (R : Cell → Cell → Prop) : Prop where
  left : ∀ {c d d'}, R c d → R c d' → d = d'
  right : ∀ {c c' d}, R c d → R c' d → c = c'

/-- The memories differ in their cells only, and these are partners. -/
structure Memory.Partners (R : Cell → Cell → Prop) (m m' : Memory) : Prop where
  desc : m.desc = m'.desc
  cell : R m.cell m'.cell

/-- The same operands are bound, each to partners. -/
def Bindings.Partners (R : Cell → Cell → Prop) (b b' : Bindings) : Prop :=
  ∀ p, Option.Rel (Memory.Partners R) (b.get? p) (b'.get? p)

/-- Partners exist and have the same bytes. -/
def Store.Mirrors (R : Cell → Cell → Prop) (s s' : Store) : Prop :=
  ∀ c c', R c c' → c < s.cells.size ∧ c' < s'.cells.size ∧ s.bytes c = s'.bytes c'

variable {R : Cell → Cell → Prop}

namespace Bindings.Partners

variable {b b' : Bindings}

theorem bound (h : b.Partners R b') {p : Operand} {m : Memory} (hm : b.get? p = some m) :
    ∃ m', b'.get? p = some m' ∧ m.Partners R m' := by
  have hp := h p
  rw [hm] at hp
  cases hb : b'.get? p with
  | none =>
    rw [hb] at hp
    cases hp
  | some m' =>
    rw [hb] at hp
    cases hp with
    | some hmm => exact ⟨m', rfl, hmm⟩

theorem unbound (h : b.Partners R b') {p : Operand} (hnone : b.get? p = none) :
    b'.get? p = none := by
  have hp := h p
  rw [hnone] at hp
  cases hb : b'.get? p with
  | none => rfl
  | some m' =>
    rw [hb] at hp
    cases hp

theorem partners (h : b.Partners R b') {p : Operand} {m m' : Memory} (hm : b.get? p = some m)
    (hm' : b'.get? p = some m') : m.Partners R m' := by
  obtain ⟨n, hn, hmn⟩ := h.bound hm
  rw [hm'] at hn
  cases hn
  exact hmn

theorem descriptors (h : b.Partners R b') : b.descriptors = b'.descriptors := by
  refine OrderedMap.ext_get? fun p => ?_
  rw [Bindings.get?_descriptors, Bindings.get?_descriptors]
  cases hm : b.get? p with
  | none => rw [h.unbound hm]
  | some m =>
    obtain ⟨m', hm', hmm⟩ := h.bound hm
    rw [hm']
    exact congrArg some hmm.desc

end Bindings.Partners

/-! ## Conversions -/

namespace Store.Mirrors

variable {s s' : Store}

theorem contents (h : s.Mirrors R s') {m m' : Memory} (hm : m.Partners R m') :
    s.contents m = s'.contents m' := (h _ _ hm.cell).2.2

theorem put (hR : OneToOne R) (h : s.Mirrors R s') {c c' : Cell} (hc : R c c') (b : Bytes) :
    (s.put c b).Mirrors R (s'.put c' b) := by
  intro d d' hd
  obtain ⟨hlt, hlt', hbytes⟩ := h d d' hd
  refine ⟨?_, ?_, ?_⟩
  · exact Array.size_setIfInBounds.symm ▸ hlt
  · exact Array.size_setIfInBounds.symm ▸ hlt'
  · rw [bytes_put, bytes_put]
    by_cases heq : c = d
    · subst heq
      obtain rfl := hR.left hc hd
      rw [if_pos ⟨rfl, hlt⟩, if_pos ⟨rfl, hlt'⟩]
    · have heq' : c' ≠ d' := fun h' => heq (hR.right hc (h' ▸ hd))
      rw [if_neg fun h => heq h.1, if_neg fun h => heq' h.1, hbytes]

theorem convert (hR : OneToOne R) (h : s.Mirrors R s') {m n m' n' : Memory}
    (hm : m.Partners R m') (hn : n.Partners R n') {t t' : Store} (ht : s.convert m n = .ok t)
    (ht' : s'.convert m' n' = .ok t') : t.Mirrors R t' := by
  have hcells : m.cell = n.cell ↔ m'.cell = n'.cell :=
    ⟨fun heq => hR.left hm.cell (heq ▸ hn.cell), fun heq => hR.right hm.cell (heq ▸ hn.cell)⟩
  have hmoved : s.moved m n = s'.moved m' n' := by
    rw [moved, moved, h.contents hm, h.contents hn, hm.desc, hn.desc]
  obtain ⟨-, ⟨heq, rfl⟩ | ⟨hne, rfl⟩⟩ := convert_cases ht <;>
    obtain ⟨-, ⟨heq', rfl⟩ | ⟨hne', rfl⟩⟩ := convert_cases ht'
  · exact h
  · exact absurd (hcells.1 heq) hne'
  · exact absurd (hcells.2 heq') hne
  · rw [hmoved]
    exact h.put hR hn.cell _

end Store.Mirrors

variable {σ β : Type}

/-- Conversions that succeed on both sides. -/
theorem World.convertOperands_mirrors (hR : OneToOne R) {source source' target target' : Bindings}
    (hsource : source.Partners R source') (htarget : target.Partners R target')
    {ps : List Operand} {w w' v v' : World σ} (h : w.store.Mirrors R w'.store)
    (hv : convertOperands source target ps w = (.ok (), v))
    (hv' : convertOperands source' target' ps w' = (.ok (), v')) : v.store.Mirrors R v'.store := by
  induction ps generalizing w w' with
  | nil =>
    cases hv
    cases hv'
    exact h
  | cons p ps ih =>
    rw [convertOperands] at hv hv'
    split at hv
    · rename_i m n hm hn
      rw [Bindings.require_eq_ok_iff] at hm hn
      obtain ⟨m', hm', hmm⟩ := hsource.bound hm
      obtain ⟨n', hn', hnn⟩ := htarget.bound hn
      rw [(Bindings.require_eq_ok_iff _ _ _).2 hm', (Bindings.require_eq_ok_iff _ _ _).2 hn'] at hv'
      dsimp only at hv'
      split at hv
      · rename_i store hstore
        split at hv'
        · rename_i store' hstore'
          exact ih (h.convert hR hmm hnn hstore hstore') hv hv'
        · cases hv'
      · cases hv
    · cases hv
    · cases hv

/-! ## Steps -/

/-- The operands have the same descriptors and the same bytes, and the same ones share a memory. -/
structure Session.Resembles (b : Bindings) (s : Session σ) (b' : Bindings) (s' : Session σ) :
    Prop where
  descriptors : b.descriptors = b'.descriptors
  contents : ∀ p m m', b.get? p = some m → b'.get? p = some m' →
    s.store.contents m = s'.store.contents m'
  sharing : ∀ p q m n m' n', b.get? p = some m → b.get? q = some n → b'.get? p = some m' →
    b'.get? q = some n' → (m.cell = n.cell ↔ m'.cell = n'.cell)

/-- The steps reach nothing but their operands, and what they answer and leave in them depends on
    nothing else. -/
structure Agrees (step step' : Bindings → Session σ → β × Session σ) : Prop where
  left : Confined step
  right : Confined step'
  answer : ∀ b s b' s', Session.Resembles b s b' s' → (step b s).1 = (step' b' s').1
  contents : ∀ b s b' s', Session.Resembles b s b' s' → ∀ p m m', b.get? p = some m →
    b'.get? p = some m' → (step b s).2.store.contents m = (step' b' s').2.store.contents m'

theorem Bindings.Partners.resembles (hR : OneToOne R) {b b' : Bindings} (hb : b.Partners R b')
    {s s' : Session σ} (h : s.store.Mirrors R s'.store) : Session.Resembles b s b' s' := by
  refine ⟨hb.descriptors, fun p m m' hm hm' => h.contents (hb.partners hm hm'),
    fun p q m n m' n' hm hn hm' hn' => ?_⟩
  have hcell := (hb.partners hm hm').cell
  have hcell' := (hb.partners hn hn').cell
  exact ⟨fun heq => hR.left hcell (heq ▸ hcell'), fun heq => hR.right hcell (heq ▸ hcell')⟩

/-- Steps that agree keep what mirrors each other. -/
theorem Agrees.mirrors {step step' : Bindings → Session σ → β × Session σ}
    (hstep : Agrees step step') (hR : OneToOne R) {b b' : Bindings} (hb : b.Partners R b')
    {s s' : Session σ} (h : s.store.Mirrors R s'.store) :
    (step b s).1 = (step' b' s').1 ∧ (step b s).2.store.Mirrors R (step' b' s').2.store := by
  have hresembles := hb.resembles hR h
  refine ⟨hstep.answer b s b' s' hresembles, fun c c' hc => ?_⟩
  obtain ⟨hlt, hlt', hbytes⟩ := h c c' hc
  refine ⟨Nat.lt_of_lt_of_le hlt (hstep.left.exist b s),
    Nat.lt_of_lt_of_le hlt' (hstep.right.exist b' s'), ?_⟩
  by_cases hoperand : ∃ p m, b.get? p = some m ∧ m.cell = c
  · obtain ⟨p, m, hm, rfl⟩ := hoperand
    obtain ⟨m', hm', hmm⟩ := hb.bound hm
    obtain rfl := hR.left hc hmm.cell
    exact hstep.contents b s b' s' hresembles p m m' hm hm'
  · -- the cell is no operand on either side, so both steps leave it alone
    have hapart : ∀ p m, b.get? p = some m → m.cell ≠ c := fun p m hm heq =>
      hoperand ⟨p, m, hm, heq⟩
    have hapart' : ∀ p m', b'.get? p = some m' → m'.cell ≠ c' := by
      intro p m' hm' heq
      cases hm : b.get? p with
      | none =>
        rw [hb.unbound hm] at hm'
        cases hm'
      | some m => exact hapart p m hm (hR.right (heq ▸ (hb.partners hm hm').cell) hc)
    rw [hstep.left.frame b s c hlt hapart, hstep.right.frame b' s' c' hlt' hapart', hbytes]

/-! ## Staged operands -/

/-- The cells of the caller's memories are partners of themselves, and those of the two memories
    that stand in for an operand are partners of each other. -/
def Paired (memory : Bindings) (wanted : Descriptors) (operands operands' : Bindings)
    (c c' : Cell) : Prop :=
  (c = c' ∧ ∃ p m, memory.get? p = some m ∧ m.cell = c) ∨
    ∃ p d m m', wanted.get? p = some d ∧ operands.get? p = some m ∧ operands'.get? p = some m' ∧
      m.cell = c ∧ m'.cell = c'

/-- Two calls on the same memories whose operands and stores mirror each other. -/
structure Matched (R : Cell → Cell → Prop) (memory operands : Bindings) (s : Store)
    (operands' : Bindings) (s' : Store) : Prop where
  oneToOne : OneToOne R
  callers : memory.Partners R memory
  operands : operands.Partners R operands'
  store : s.Mirrors R s'

theorem Matched.contents {memory operands operands' : Bindings} {s s' : Store}
    (h : Matched R memory operands s operands' s') {p : Operand} {m : Memory}
    (hm : memory.get? p = some m) : s.contents m = s'.contents m :=
  h.store.contents (h.callers.partners hm hm)

/-- Steps that agree give the same answer and keep the match. -/
theorem Matched.run {memory operands operands' : Bindings} (s s' : Session σ)
    (h : Matched R memory operands s.store operands' s'.store)
    {step step' : Bindings → Session σ → β × Session σ} (hstep : Agrees step step') :
    (step operands s).1 = (step' operands' s').1 ∧
      Matched R memory operands (step operands s).2.store operands'
        (step' operands' s').2.store := by
  obtain ⟨hanswer, hstore⟩ := hstep.mirrors h.oneToOne h.operands h.store
  exact ⟨hanswer, h.oneToOne, h.callers, h.operands, hstore⟩

/-- The same memories are owned in both worlds and have the same bytes there. -/
structure World.OwnAlike (v v' : World σ) (memory : Bindings) : Prop where
  left : v.Owns memory
  right : v'.Owns memory
  contents : ∀ p m, memory.get? p = some m → v.store.contents m = v'.store.contents m

section StandIns

variable {memory operands operands' : Bindings} {wanted : Descriptors} {v v' w w' : World σ}

theorem Paired.symm {c c' : Cell} (h : Paired memory wanted operands operands' c c') :
    Paired memory wanted operands' operands c' c := by
  rcases h with ⟨rfl, h⟩ | ⟨p, d, m, m', hp, hm, hm', hc, hc'⟩
  · exact .inl ⟨rfl, h⟩
  · exact .inr ⟨p, d, m', m, hp, hm', hm, hc', hc⟩

/-- A stand-in is in a cell of its own, which is no cell of the caller. -/
theorem World.StandIns.paired_left (h : v.StandIns memory wanted operands w) (ho : v.Owns memory)
    {c d d' : Cell} (hd : Paired memory wanted operands operands' c d)
    (hd' : Paired memory wanted operands operands' c d') : d = d' := by
  have hfresh : ∀ p t m q n, wanted.get? p = some t → operands.get? p = some m →
      memory.get? q = some n → m.cell ≠ n.cell := fun p t m q n hp hm hn heq =>
    h.fresh hp hm (heq ▸ ho.held q n hn)
  rcases hd with ⟨rfl, q, n, hn, hnc⟩ | ⟨p, t, m, m', hp, hm, hm', rfl, rfl⟩ <;>
    rcases hd' with ⟨rfl, q', n', hn', hnc'⟩ | ⟨p', t', k, k', hp', hk, hk', hkc, rfl⟩
  · rfl
  · exact absurd (hkc.trans hnc.symm) (hfresh p' t' k q n hp' hk hn)
  · exact absurd hnc'.symm (hfresh p t m q' n' hp hm hn')
  · obtain rfl := h.apart p p' t t' m k hp hp' hm hk hkc.symm
    rw [hm'] at hk'
    cases hk'
    rfl

theorem World.StandIns.matched (h : v.StandIns memory wanted operands w)
    (h' : v'.StandIns memory wanted operands' w') (hv : v.OwnAlike v' memory)
    (hw : v.Extends w) (hw' : v'.Extends w') :
    Matched (Paired memory wanted operands operands') memory operands w.store operands'
      w'.store := by
  refine ⟨⟨h.paired_left hv.left, fun hc hc' => h'.paired_left hv.right hc.symm hc'.symm⟩,
    fun p => ?callers, fun p => ?operands, fun c c' hc => ?store⟩
  case callers =>
    cases hm : memory.get? p with
    | none => exact .none
    | some m => exact .some ⟨rfl, .inl ⟨rfl, p, m, hm, rfl⟩⟩
  case operands =>
    cases hp : wanted.get? p with
    | none =>
      rw [h.kept p hp, h'.kept p hp]
      cases hm : memory.get? p with
      | none => exact .none
      | some m => exact .some ⟨rfl, .inl ⟨rfl, p, m, hm, rfl⟩⟩
    | some d =>
      obtain ⟨m, n, hm, hdesc, -⟩ := h.lent p d hp
      obtain ⟨m', n', hm', hdesc', -⟩ := h'.lent p d hp
      rw [hm, hm']
      exact .some ⟨hdesc.trans hdesc'.symm, .inr ⟨p, d, m, m', hp, hm, hm', rfl, rfl⟩⟩
  case store =>
    rcases hc with ⟨rfl, p, m, hm, rfl⟩ | ⟨p, d, m, m', hp, hm, hm', rfl, rfl⟩
    · have hheld := hv.left.held p m hm
      have hheld' := hv.right.held p m hm
      refine ⟨(hw.held _ hheld).1, (hw'.held _ hheld').1, ?_⟩
      exact (hw.bytes _ hheld).trans ((hv.contents p m hm).trans (hw'.bytes _ hheld').symm)
    · obtain ⟨k, n, hk, -, -, hheld, hn, hzero⟩ := h.lent p d hp
      obtain ⟨k', n', hk', -, -, hheld', hn', hzero'⟩ := h'.lent p d hp
      rw [hm] at hk
      rw [hm'] at hk'
      rw [hn] at hn'
      cases hk
      cases hk'
      cases hn'
      exact ⟨hheld.1, hheld'.1, hzero.trans hzero'.symm⟩

end StandIns

/-! ## Calls of adapters with the same plan -/

namespace Adapter

variable {a a' : Adapter σ} {memory : Bindings} {v v' : World σ}

/-- Both adapters stage the operands, and what they stage mirrors each other. -/
theorem Reaches.stages_matched (hr : a.Reaches memory) (hc : a.conversions = a'.conversions)
    (hv : v.OwnAlike v' memory) : ∃ operands loans w operands' loans' w' R,
      World.stageFrom memory a.conversions.entries memory [] v = (.ok operands, loans, w) ∧
      World.stageFrom memory a'.conversions.entries memory [] v' = (.ok operands', loans', w') ∧
      operands.descriptors = memory.descriptors.replacedBy a.conversions ∧
      operands'.descriptors = memory.descriptors.replacedBy a'.conversions ∧
      Matched R memory operands w.store operands' w'.store := by
  have hbound := fun p d hd =>
    (bound_of_convertsTo hr.converts (p := p) (d := d) hd).imp fun _ hm => hm.1
  obtain ⟨operands, loans, w, hstage, hborrows, hstand⟩ :=
    World.stageFrom_standIns hbound hr.allocatable hv.left.sound
  obtain ⟨operands', loans', w', hstage', hborrows', hstand'⟩ :=
    World.stageFrom_standIns hbound hr.allocatable hv.right.sound
  exact ⟨operands, loans, w, operands', loans', w', _, hstage, hc ▸ hstage', hstand.descriptors,
    hc ▸ hstand'.descriptors, hstand.matched hstand' hv hborrows.extension hborrows'.extension⟩

theorem update_mirrors {r r' : Runner σ}
    (hr : (a.follow memory.descriptors).Reaches memory)
    (hr' : (a'.follow memory.descriptors).Reaches memory)
    (hc : (a.follow memory.descriptors).conversions = (a'.follow memory.descriptors).conversions)
    (hinner : a.inner = some r) (hinner' : a'.inner = some r') (hagrees : Agrees r.update r'.update)
    (hv : v.OwnAlike v' memory) : (a.update memory v).1 = (a'.update memory v').1 ∧
      (a.update memory v).2.2.OwnAlike (a'.update memory v').2.2 memory := by
  have hpreserves := update_preserves (a := a)
    (fun r₁ h => Option.some.inj (hinner.symm.trans h) ▸ hagrees.left) memory hv.left.sound
  have hpreserves' := update_preserves (a := a')
    (fun r₁ h => Option.some.inj (hinner'.symm.trans h) ▸ hagrees.right) memory hv.right.sound
  obtain ⟨operands, loans, w, operands', loans', w', R, hstage, hstage', -, -, hmatched⟩ :=
    hr.stages_matched hc hv
  obtain ⟨hanswer, hafter⟩ := hmatched.run w.toSession w'.toSession hagrees
  have hupdate : a.update memory v = ((r.update operands w.toSession).1,
      a.follow memory.descriptors, (w.run (r.update operands)).2.giveBack loans) := by
    unfold update
    simp only [(check_eq_ok_iff _ _).2 hr.converts, follow_inner, hinner, World.withStaged, hstage]
    rfl
  have hupdate' : a'.update memory v' = ((r'.update operands' w'.toSession).1,
      a'.follow memory.descriptors, (w'.run (r'.update operands')).2.giveBack loans') := by
    unfold update
    simp only [(check_eq_ok_iff _ _).2 hr'.converts, follow_inner, hinner', World.withStaged,
      hstage']
    rfl
  refine ⟨by rw [hupdate, hupdate', hanswer], hpreserves.owns hv.left, hpreserves'.owns hv.right,
    fun p m hm => ?_⟩
  rw [hupdate, hupdate']
  exact hafter.contents hm

/-- What is handed over mirrors each other as well. -/
theorem Reaches.handOver_matched (hr : a.Reaches memory) (hr' : a'.Reaches memory)
    (hc : a.conversions = a'.conversions) (hv : v.OwnAlike v' memory) : ∃ h h' R,
      a.handOver memory v = .ok h ∧ a'.handOver memory v' = .ok h' ∧
      Matched R memory h.operands h.world.store h'.operands h'.world.store := by
  obtain ⟨operands, loans, w, operands', loans', w', R, hstage, hstage', hdesc, hdesc', hmatched⟩ :=
    hr.stages_matched hc hv
  obtain ⟨store, hin⟩ := World.convertOperands_eq_ok memory operands
    (a.conversions.keys.filter Operand.isInput)
    (fun p hp => hr.checkConversion hdesc (List.mem_filter.1 hp).1) w
  obtain ⟨store', hin'⟩ := World.convertOperands_eq_ok memory operands'
    (a'.conversions.keys.filter Operand.isInput)
    (fun p hp => hr'.checkConversion hdesc' (List.mem_filter.1 hp).1) w'
  obtain ⟨r, hinner⟩ := hr.built
  obtain ⟨r', hinner'⟩ := hr'.built
  refine ⟨⟨r, operands, loans, { w with store }⟩,
    ⟨r', operands', loans', { w' with store := store' }⟩, R, ?_, ?_, hmatched.oneToOne,
    hmatched.callers, hmatched.operands, ?_⟩
  · simp only [Adapter.handOver, (check_eq_ok_iff _ _).2 hr.converts, hinner, hstage, hin]
  · simp only [Adapter.handOver, (check_eq_ok_iff _ _).2 hr'.converts, hinner', hstage', hin']
  · exact World.convertOperands_mirrors hmatched.oneToOne hmatched.callers hmatched.operands
      hmatched.store hin (hc ▸ hin')

theorem execute_mirrors {r r' : Runner σ} (hr : a.Reaches memory) (hr' : a'.Reaches memory)
    (hc : a.conversions = a'.conversions) (hinner : a.inner = some r)
    (hinner' : a'.inner = some r') (hagrees : Agrees r.execute r'.execute)
    (hv : v.OwnAlike v' memory) : (a.execute memory v).1 = (a'.execute memory v').1 ∧
      ∀ p m, memory.get? p = some m →
        (a.execute memory v).2.store.contents m = (a'.execute memory v').2.store.contents m := by
  obtain ⟨h, h', R, hh, hh', hmatched⟩ := hr.handOver_matched hr' hc hv
  obtain ⟨h₁, hh₁, hrunner, hdesc⟩ := hr.handOver v
  obtain ⟨h₁', hh₁', hrunner', hdesc'⟩ := hr'.handOver v'
  rw [hh] at hh₁
  rw [hh'] at hh₁'
  cases hh₁
  cases hh₁'
  obtain rfl := Option.some.inj (hinner.symm.trans hrunner)
  obtain rfl := Option.some.inj (hinner'.symm.trans hrunner')
  obtain ⟨hanswer, hafter⟩ := hmatched.run h.world.toSession h'.world.toSession hagrees
  rw [execute_eq, execute_eq, hh, hh']
  dsimp only
  unfold runOnce World.run
  rcases hexec : h.runner.execute h.operands h.world.toSession with ⟨answer, s⟩
  rcases hexec' : h'.runner.execute h'.operands h'.world.toSession with ⟨answer', s'⟩
  rw [hexec, hexec'] at hanswer hafter
  dsimp only at hanswer hafter
  subst hanswer
  cases answer with
  | error e => exact ⟨rfl, fun p m hm => hafter.contents hm⟩
  | ok =>
    obtain ⟨store, hout⟩ := hr.convertsBack hdesc { h.world with toSession := s }
    obtain ⟨store', hout'⟩ := hr'.convertsBack hdesc' { h'.world with toSession := s' }
    have hstore : ({ h.world with toSession := s } : World σ).store.Mirrors R
        ({ h'.world with toSession := s' } : World σ).store := hafter.store
    have hback := World.convertOperands_mirrors hafter.oneToOne hafter.operands hafter.callers
      hstore hout (hc ▸ hout')
    unfold settle
    dsimp only
    rw [hout, hout']
    exact ⟨rfl, fun p m hm => hback.contents (hafter.callers.partners hm hm)⟩

end Adapter

end KernelDispatch
