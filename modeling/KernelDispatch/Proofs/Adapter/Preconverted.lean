import KernelDispatch.Proofs.Adapter.Formats
import KernelDispatch.Proofs.Adapter.Handover
import KernelDispatch.Proofs.Adapter.Scaling
import KernelDispatch.Scripted

/-
  A call of an adapter is a run of its kernel on operands that have been converted before. After an
  update that says that the kernel can run, the call runs it once: each operand in another layout
  than the one asked for has a substitute of the same shape in that layout, all others are the
  caller's memories. The caller's outputs end up with the logical elements that the kernel left in
  their substitutes, and the pool that the substitutes come from has no part in the outcome
  (`execute_eq_run_on_preconverted`).
-/

namespace KernelDispatch

namespace Operand

theorem isInput_eq_false {p : Operand} : p.isInput = false ↔ p.isOutput = true := by
  unfold isInput
  cases p.isOutput <;> simp

end Operand

namespace Adapter

variable {α σ : Type}

/-- If the target keeps the shapes, the conversions are always those by element type and layout. -/
theorem Plans.conversions_follow {a : Adapter σ} {target descs : Descriptors}
    (h : a.Plans target descs) (hkeeps : target.KeepsShapes descs) (ds : Descriptors) :
    (a.follow ds).conversions = ds.carriedTo target.formats := by
  have hplanned := follow_planned a ds
  rcases (h.follow ds).conversions with ⟨hp, hc⟩ | hc
  · rw [hc, Descriptors.differingFrom_eq_carriedTo hkeeps, ← hp, hplanned]
  · rw [hc, hplanned]

/-- The operands are those in `memory`, but each of them that does not have the element type and
    layout that the target names has a substitute of the same shape in that layout. A substitute
    for an input has the logical elements of the input, one for an output has zeros. -/
structure Preconverted (target : Descriptors) (memory : Bindings) (s : Store)
    (h : Handover σ) : Prop where
  unbound : ∀ p, memory.get? p = none → h.operands.get? p = none
  kept : ∀ p m, memory.get? p = some m →
    (∀ t, target.get? p = some t → m.desc.Meets t) →
      h.operands.get? p = some m ∧ h.world.store.contents m = s.contents m
  substituted : ∀ p m t, memory.get? p = some m → target.get? p = some t → ¬ m.desc.Meets t →
    ∃ m', h.operands.get? p = some m' ∧ m'.desc = { m.desc with layout := t.layout } ∧
      m.desc.elementType = t.elementType ∧
      (∀ q m'', memory.get? q = some m'' → m''.cell ≠ m'.cell) ∧
      (p.isInput = true → h.world.store.SameElements m' s m ∧ h.world.store.ZeroPadded m') ∧
      (p.isOutput = true →
        ∃ n, m'.desc.requiredBytes = .ok n ∧ h.world.store.contents m' = Bytes.zeros n)

/-- What the caller finds in `memory` after a kernel has run and left its operands in the store
    `left`: the logical elements of the substitutes in the outputs, the inputs as they were, and in
    all other memories what the kernel left there. -/
structure Returned (target : Descriptors) (memory : Bindings) (s left : Store) (h : Handover σ)
    (s' : Store) : Prop where
  outputs : ∀ p m m' t, memory.get? p = some m → h.operands.get? p = some m' →
    target.get? p = some t → ¬ m.desc.Meets t → p.isOutput = true →
      s'.SameElements m left m' ∧ s'.ZeroPadded m
  inputs : ∀ p m t, memory.get? p = some m → target.get? p = some t → ¬ m.desc.Meets t →
    p.isInput = true → s'.contents m = s.contents m
  others : ∀ p m, memory.get? p = some m → (∀ t, target.get? p = some t → m.desc.Meets t) →
    s'.contents m = left.contents m

/-! ## Conversions by element type and layout -/

section Carried

variable {a : Adapter σ} {target : Descriptors} {memory : Bindings}

theorem conversions_eq_none (hc : a.conversions = memory.descriptors.carriedTo target.formats)
    {p : Operand} {m : Memory} (hm : memory.get? p = some m)
    (hmeets : ∀ t, target.get? p = some t → m.desc.Meets t) : a.conversions.get? p = none := by
  cases hp : a.conversions.get? p with
  | none => rfl
  | some d =>
    rw [hc, Descriptors.get?_carriedTo_eq_some_iff] at hp
    obtain ⟨d', t, hd', ht, hnot, -⟩ := hp
    rw [Bindings.get?_descriptors, hm] at hd'
    cases hd'
    exact absurd (hmeets t ht) hnot

theorem conversions_eq_some (hc : a.conversions = memory.descriptors.carriedTo target.formats)
    {p : Operand} {m : Memory} {t : Descriptor} (hm : memory.get? p = some m)
    (ht : target.get? p = some t) (hnot : ¬ m.desc.Meets t) : a.conversions.get? p =
      some { m.desc with elementType := t.elementType, layout := t.layout } := by
  rw [hc, Descriptors.get?_carriedTo_eq_some_iff]
  refine ⟨m.desc, t, ?_, ht, hnot, rfl⟩
  rw [Bindings.get?_descriptors, hm]
  rfl

/-- A substitute differs from the memory that it stands for in its layout only. -/
theorem Substitutes.relaid {w w' : World σ} {p : Operand} {m m' : Memory} {t : Descriptor}
    (h : Substitutes w p m { m.desc with elementType := t.elementType, layout := t.layout } m' w')
    (hnot : ¬ m.desc.Meets t) : m.desc.elementType = t.elementType ∧ Store.Relaid m m' := by
  have htype := ((Descriptor.checkConversion_eq_ok_iff _ _).1 h.check).1
  refine ⟨htype, ?_, ?_, fun hlayout => hnot ⟨htype, ?_⟩⟩
  · rw [h.desc]
    exact htype.symm
  · rw [h.desc]
  · rw [hlayout, h.desc]

theorem Prepares.preconverted {w : World σ} {h : Handover σ} (hp : a.Prepares memory w h)
    (hc : a.conversions = memory.descriptors.carriedTo target.formats) (ho : w.Owns memory) :
    Preconverted target memory w.store h := by
  refine ⟨fun p hnone => ?_, fun p m hm hmeets => ?_, fun p m t hm ht hnot => ?_⟩
  · cases hcp : a.conversions.get? p with
    | none => rw [hp.kept p hcp, hnone]
    | some d =>
      obtain ⟨m, m', hm, -⟩ := hp.substituted p d hcp
      rw [hnone] at hm
      cases hm
  · refine ⟨by rw [hp.kept p (conversions_eq_none hc hm hmeets), hm], ?_⟩
    exact hp.borrows.extension.bytes _ (ho.held p m hm)
  · obtain ⟨m₁, m', hm₁, hm', hsub⟩ := hp.substituted p _ (conversions_eq_some hc hm ht hnot)
    rw [hm] at hm₁
    cases hm₁
    obtain ⟨htype, hrelaid⟩ := hsub.relaid hnot
    obtain ⟨n, hn, hbytes⟩ := hsub.bytes
    refine ⟨m', hm', ?_, htype, fun q m'' hq heq => hsub.fresh (heq ▸ ho.held q m'' hq),
      fun hin => ?_, fun hout => ?_⟩
    · rw [hsub.desc, ← htype]
    · rw [substituteBytes, if_pos hin] at hbytes
      have hsize : m'.desc.requiredBytes = .ok (Bytes.zeros n).size := by
        rw [Bytes.size_zeros, hsub.desc]
        exact hn
      rw [← hsub.desc] at hbytes
      exact Store.sameElements_of_rearranged hrelaid hsize hbytes
    · rw [substituteBytes, if_neg (by rw [Operand.isInput_eq_false.2 hout]; simp)] at hbytes
      exact ⟨n, by rw [hsub.desc]; exact hn, hbytes⟩

theorem Settles.returned {w w' : World σ} {h : Handover σ} {s : Session σ}
    (hset : a.Settles memory h s w') (hp : a.Prepares memory w h)
    (hc : a.conversions = memory.descriptors.carriedTo target.formats) (ho : w.Owns memory)
    (huntouched : ∀ p d m, a.conversions.get? p = some d → memory.get? p = some m →
      s.store.contents m = w.store.contents m) :
    Returned target memory w.store s.store h w'.store := by
  refine ⟨fun p m m' t hm hm' ht hnot hout => ?_, fun p m t hm ht hnot hin => ?_,
    fun p m hm hmeets => ?_⟩
  · have hcp := conversions_eq_some hc hm ht hnot
    obtain ⟨m₁, m₂, hm₁, hm₂, hsub⟩ := hp.substituted p _ hcp
    rw [hm] at hm₁
    rw [hm'] at hm₂
    cases hm₁
    cases hm₂
    obtain ⟨-, hrelaid⟩ := hsub.relaid hnot
    have hsize : m.desc.requiredBytes = .ok (s.store.contents m).size := by
      rw [huntouched p _ m hcp hm]
      exact ho.fits p m hm
    exact Store.sameElements_of_rearranged hrelaid.symm hsize (hset.output p _ m m' hcp hout hm hm')
  · have hcp := conversions_eq_some hc hm ht hnot
    have hkept : p.isOutput = false := by
      unfold Operand.isInput at hin
      simpa using hin
    rw [hset.other p m hm (.inr hkept), huntouched p _ m hcp hm]
  · exact hset.other p m hm (.inl (conversions_eq_none hc hm hmeets))

end Carried

/-! ## The pool -/

section Pool

variable {a : Adapter σ} {memory : Bindings} {w w' : World σ}

/-- A kernel is handed the same bytes, whatever the pool has. -/
theorem Prepares.alike {h h' : Handover σ} (hp : a.Prepares memory w h)
    (hp' : a.Prepares memory w' h') (ho : w.Owns memory) (ho' : w'.Owns memory)
    (halike : Session.Alike memory w.toSession memory w'.toSession) :
    Session.Alike h.operands h.world.toSession h'.operands h'.world.toSession := by
  refine ⟨by rw [hp.descriptors, hp'.descriptors], fun p m₁ m₁' hm₁ hm₁' => ?_, ?_⟩
  · cases hc : a.conversions.get? p with
    | none =>
      rw [hp.kept p hc] at hm₁
      rw [hp'.kept p hc, hm₁] at hm₁'
      cases hm₁'
      have hbytes := hp.borrows.extension.bytes _ (ho.held p m₁ hm₁)
      have hbytes' := hp'.borrows.extension.bytes _ (ho'.held p m₁ hm₁)
      exact (hbytes.trans (halike.contents p m₁ m₁ hm₁ hm₁)).trans hbytes'.symm
    | some d =>
      obtain ⟨m, m₂, hm, hm₂, hsub⟩ := hp.substituted p d hc
      obtain ⟨m', m₂', hm', hm₂', hsub'⟩ := hp'.substituted p d hc
      rw [hm₁] at hm₂
      rw [hm₁'] at hm₂'
      rw [hm] at hm'
      cases hm₂
      cases hm₂'
      cases hm'
      obtain ⟨n, hn, hbytes⟩ := hsub.bytes
      obtain ⟨n', hn', hbytes'⟩ := hsub'.bytes
      rw [hn] at hn'
      cases hn'
      rw [hbytes, hbytes', substituteBytes, substituteBytes, halike.contents p m m hm hm]
  · exact (hp.borrows.extension.ambient.trans halike.ambient).trans
      hp'.borrows.extension.ambient.symm

/-- A kernel gives the same answer whatever the pool has, and leaves its operands and the caller's
    memories with the same bytes. -/
theorem Prepares.runs_alike {h h' : Handover σ} (hp : a.Prepares memory w h)
    (hp' : a.Prepares memory w' h') (hd : memory.Distinct) (ho : w.Owns memory)
    (ho' : w'.Owns memory) (hconf : h.runner.Confined)
    (halike : Session.Alike memory w.toSession memory w'.toSession)
    {r r' : Except Error Unit} {s s' : Session σ}
    (hrun : h.runner.execute h.operands h.world.toSession = (r, s))
    (hrun' : h'.runner.execute h'.operands h'.world.toSession = (r', s')) :
    r = r' ∧ Session.Alike h.operands s h'.operands s' ∧
      ∀ p m, memory.get? p = some m → s.store.contents m = s'.store.contents m := by
  have hrunner : h'.runner = h.runner := Option.some.inj (hp'.built.symm.trans hp.built)
  have hconf' : h'.runner.Confined := hrunner ▸ hconf
  have hruns := hconf.alike h.operands h'.operands h.world.toSession h'.world.toSession
    hp.distinct hp'.distinct (hp.alike hp' ho ho' halike)
  rw [hrun, ← hrunner, hrun'] at hruns
  obtain ⟨hresult, hafter⟩ := hruns
  refine ⟨hresult, hafter, fun p m hm => ?_⟩
  cases hc : a.conversions.get? p with
  | none =>
    exact hafter.contents p m m (by rw [hp.kept p hc, hm]) (by rw [hp'.kept p hc, hm])
  | some d =>
    have hleft := hp.untouched hd ho hconf.execute hc hm
    have hleft' := hp'.untouched hd ho' hconf'.execute hc hm
    rw [hrun] at hleft
    rw [hrun'] at hleft'
    exact (hleft.trans (halike.contents p m m hm hm)).trans hleft'.symm

/-- Two calls whose kernel left the same bytes leave the caller the same bytes. -/
theorem Settles.alike {v v' : World σ} {h h' : Handover σ} {s s' : Session σ}
    (hset : a.Settles memory h s v) (hset' : a.Settles memory h' s' v')
    (hp : a.Prepares memory w h) (hp' : a.Prepares memory w' h')
    (hafter : Session.Alike h.operands s h'.operands s')
    (hleft : ∀ p m, memory.get? p = some m → s.store.contents m = s'.store.contents m) :
    Session.Alike memory v.toSession memory v'.toSession := by
  refine ⟨rfl, fun p m m₁ hm hm₁ => ?_, ?_⟩
  · rw [hm] at hm₁
    cases hm₁
    by_cases hother : a.conversions.get? p = none ∨ p.isOutput = false
    · rw [hset.other p m hm hother, hset'.other p m hm hother]
      exact hleft p m hm
    · rw [not_or, Bool.not_eq_false] at hother
      obtain ⟨hsome, hout⟩ := hother
      obtain ⟨d, hc⟩ := Option.ne_none_iff_exists'.1 hsome
      obtain ⟨_, m₂, -, hm₂, hsub⟩ := hp.substituted p d hc
      obtain ⟨_, m₂', -, hm₂', hsub'⟩ := hp'.substituted p d hc
      rw [hset.output p d m m₂ hc hout hm hm₂, hset'.output p d m m₂' hc hout hm hm₂']
      unfold Store.moved
      rw [hsub.desc, hsub'.desc, hafter.contents p m₂ m₂' hm₂ hm₂', hleft p m hm]
  · exact (hset.ambient.trans hafter.ambient).trans hset'.ambient.symm

/-- The outcome of a call does not depend on the pool: neither the answer, nor the bytes of the
    caller's memories, nor the surroundings. -/
theorem execute_alike (hr : a.Reaches memory) (hd : memory.Distinct) (ho : w.Owns memory)
    (ho' : w'.Owns memory) (hconf : ∀ r, a.inner = some r → r.Confined)
    (halike : Session.Alike memory w.toSession memory w'.toSession) :
    (a.execute memory w).1 = (a.execute memory w').1 ∧
      Session.Alike memory (a.execute memory w).2.toSession memory
        (a.execute memory w').2.toSession := by
  obtain ⟨h, hh, hp⟩ := prepares_of_reaches hr hd ho
  obtain ⟨h', hh', hp'⟩ := prepares_of_reaches hr hd ho'
  rw [execute_eq, execute_eq, hh, hh']
  dsimp only
  cases hrun : h.runner.execute h.operands h.world.toSession with
  | mk r s =>
  cases hrun' : h'.runner.execute h'.operands h'.world.toSession with
  | mk r' s' =>
  obtain ⟨rfl, hafter, hleft⟩ := hp.runs_alike hp' hd ho ho' (hconf _ hp.built) halike hrun hrun'
  cases r with
  | error e =>
    unfold runOnce World.run
    rw [hrun, hrun']
    refine ⟨rfl, rfl, fun p m m₁ hm hm₁ => ?_, hafter.ambient⟩
    rw [hm] at hm₁
    cases hm₁
    exact hleft p m hm
  | ok =>
    obtain ⟨v, hsettle, hset⟩ := settles hp hd ho (hconf _ hp.built) hrun
    obtain ⟨v', hsettle', hset'⟩ := settles hp' hd ho' (hconf _ hp'.built) hrun'
    rw [hsettle, hsettle']
    exact ⟨rfl, hset.alike hset' hp hp' hafter hleft⟩

end Pool

/-! ## The call after an update -/

/-- The call `h` of the adapter `a` is one run of the kernel on operands that have been converted
    before. -/
structure RunsPreconverted (a : Adapter σ) (target : Descriptors) (memory : Bindings) (w : World σ)
    (h : Handover σ) : Prop where
  /-- Everything before the run succeeds, and yields the converted operands. -/
  handedOver : a.handOver memory w = .ok h
  preconverted : Preconverted target memory w.store h
  /-- The kernel runs once. -/
  once : a.execute memory w = a.runOnce memory h
  /-- Its answer, an error for example, is the answer to the call. -/
  answer : (a.execute memory w).1 = (h.runner.execute h.operands h.world.toSession).1
  returned : (h.runner.execute h.operands h.world.toSession).1 = .ok () →
    Returned target memory w.store (h.runner.execute h.operands h.world.toSession).2.store h
      (a.execute memory w).2.store
  /-- With any other pool, and with other memories that the caller does not own, the answer, the
      bytes of the caller's memories and the surroundings are the same. -/
  indifferent : ∀ w' : World σ, w'.Owns memory →
    Session.Alike memory w.toSession memory w'.toSession →
      (a.execute memory w').1 = (a.execute memory w).1 ∧
        Session.Alike memory (a.execute memory w).2.toSession memory
          (a.execute memory w').2.toSession

/-- The answer of the kernel is passed on. -/
theorem Prepares.runOnce_fst {a : Adapter σ} {memory : Bindings} {w : World σ} {h : Handover σ}
    (hp : a.Prepares memory w h) (hd : memory.Distinct) (ho : w.Owns memory)
    (hconf : h.runner.Confined) :
    (a.runOnce memory h).1 = (h.runner.execute h.operands h.world.toSession).1 := by
  cases hrun : h.runner.execute h.operands h.world.toSession with
  | mk r s =>
  cases r with
  | error e =>
    unfold runOnce World.run
    rw [hrun]
    rfl
  | ok =>
    obtain ⟨w', hsettle, -⟩ := settles hp hd ho hconf hrun
    rw [hsettle]

theorem runsPreconverted_of_reaches {a : Adapter σ} {target : Descriptors} {memory : Bindings}
    {w : World σ} (hr : a.Reaches memory)
    (hc : a.conversions = memory.descriptors.carriedTo target.formats) (hd : memory.Distinct)
    (ho : w.Owns memory) (hconf : ∀ r, a.inner = some r → r.Confined) :
    ∃ h, a.inner = some h.runner ∧ a.RunsPreconverted target memory w h := by
  obtain ⟨h, hh, hp⟩ := prepares_of_reaches hr hd ho
  have hrunner := hconf _ hp.built
  have honce : a.execute memory w = a.runOnce memory h := by
    rw [execute_eq, hh]
  refine ⟨h, hp.built, hh, hp.preconverted hc ho, honce, ?_, fun hok => ?_, fun w' hw' halike => ?_⟩
  · rw [honce]
    exact hp.runOnce_fst hd ho hrunner
  · have hrun : h.runner.execute h.operands h.world.toSession =
        (.ok (), (h.runner.execute h.operands h.world.toSession).2) := Prod.ext hok rfl
    obtain ⟨w', hsettle, hset⟩ := settles hp hd ho hrunner hrun
    rw [honce, hsettle]
    exact hset.returned hp hc ho fun p d m hcp hm => hp.untouched hd ho hrunner.execute hcp hm
  · obtain ⟨hanswer, hleft⟩ := execute_alike hr hd ho hw' hconf halike
    exact ⟨hanswer.symm, hleft⟩

/-- For an adapter whose target keeps the shapes and whose kernel reaches its operands only, after
    every history: if an update says that the kernel can run on operands that share no memory, the
    call that follows is one run of the kernel on converted operands, whatever the pool has. The
    memories of the caller stay the caller's. -/
theorem execute_eq_run_on_preconverted {k : Kernel α σ} {attrs : α} {descs target : Descriptors}
    {memory₀ memory : Bindings} {w₀ w₁ w : World σ} {a₀ a : Adapter σ}
    (hbuild : Adapter.build k attrs descs target memory₀ w₀ = (.ok a₀, w₁))
    (hkeeps : target.KeepsShapes descs) (hconf : ∀ r, a₀.inner = some r → r.Confined)
    (calls : List (Call σ)) (hd : memory.Distinct)
    (ho : (Adapter.after (a₀, w₁) calls).2.Owns memory)
    (hupdate : (Adapter.after (a₀, w₁) calls).1.update memory (Adapter.after (a₀, w₁) calls).2 =
      (.ok true, a, w)) :
    ∃ h, a₀.inner = some h.runner ∧ a.RunsPreconverted target memory w h ∧
      (a.execute memory w).2.Owns memory := by
  have hplans : (Adapter.after (a₀, w₁) calls).1.Plans target descs :=
    Plans.after (s := (a₀, w₁)) (build_plans hbuild) calls
  have hinner : (Adapter.after (a₀, w₁) calls).1.inner = a₀.inner := after_inner (a₀, w₁) calls
  generalize Adapter.after (a₀, w₁) calls = s at hplans hinner ho hupdate
  have ha : a = s.1.follow memory.descriptors := by
    rw [← update_adapter s.1 memory s.2, hupdate]
  have hinner' : a.inner = a₀.inner := by
    rw [ha, follow_inner, hinner]
  -- the adapter is now planned for the operands, and the caller's memories are as they were
  have hr : a.Reaches memory := by
    rw [ha]
    exact reaches_of_update (w := s.2) (by rw [hupdate])
  have hc : a.conversions = memory.descriptors.carriedTo target.formats := by
    rw [ha]
    exact hplans.conversions_follow hkeeps _
  have ho' : w.Owns memory := by
    have hpreserves :=
      update_preserves (fun r hr => (hconf r (hinner ▸ hr)).update) memory ho.sound
    rw [hupdate] at hpreserves
    exact hpreserves.owns ho
  rw [← hinner'] at hconf
  obtain ⟨h, hbuilt, hruns⟩ := runsPreconverted_of_reaches hr hc hd ho' hconf
  have hpreserves := execute_preserves (fun r hr => (hconf r hr).execute) memory ho'.sound
  exact ⟨h, hinner' ▸ hbuilt, hruns, hpreserves.owns ho'⟩

/-! ## Planar images for a kernel that takes the channels last -/

theorem get?_imagePair {l : Layout} {c c' : Cell} {p : Operand} {m : Memory}
    (h : (imagePair l c c').get? p = some m) :
    (p = .source 0 ∧ m = ⟨image l, c⟩) ∨ (p = .destination 0 ∧ m = ⟨image .planar, c'⟩) := by
  have hmem : (p, m) ∈ [(Operand.source 0, (⟨image l, c⟩ : Memory)),
      (.destination 0, ⟨image .planar, c'⟩)] := (OrderedMap.get?_eq_some_iff _).1 h
  simpa using hmem

theorem imagePair_distinct {l : Layout} {c c' : Cell} (hne : c ≠ c') :
    (imagePair l c c').Distinct := by
  intro p q m m' hm hm' heq
  rcases get?_imagePair hm with ⟨rfl, rfl⟩ | ⟨rfl, rfl⟩ <;>
    rcases get?_imagePair hm' with ⟨rfl, rfl⟩ | ⟨rfl, rfl⟩
  · rfl
  · exact absurd heq hne
  · exact absurd heq.symm hne
  · rfl

theorem owns_imagePair {w : World Journal} (hstore : w.store = fourImages.store)
    (hpool : w.scratch.pool = []) : w.Owns (imagePair .planar 0 1) := by
  refine .of_pool_eq_nil hpool fun p m hm => ?_
  rw [hstore]
  rcases get?_imagePair hm with ⟨-, rfl⟩ | ⟨-, rfl⟩
  · exact ⟨by decide, rfl⟩
  · exact ⟨by decide, rfl⟩

/-- Two planar images are announced, and then there is a call on them. -/
def planarCalls : List (Call Journal) :=
  [.update (imagePair .planar 2 3), .execute (imagePair .planar 2 3)]

/-- An adapter that was built for images with the channels last meets two planar ones, and then two
    others. -/
theorem packer_execute_eq_run_on_preconverted :
    ∃ a₀ w₁, Adapter.build packer ⟨.zero⟩ channelsLastPair channelsLastPair
        (imagePair .channelsLast 0 1) fourImages = (.ok a₀, w₁) ∧
      ∃ a w h, (after (a₀, w₁) planarCalls).1.update (imagePair .planar 0 1)
          (after (a₀, w₁) planarCalls).2 = (.ok true, a, w) ∧
        a₀.inner = some h.runner ∧ a.RunsPreconverted channelsLastPair (imagePair .planar 0 1) w h ∧
        (a.execute (imagePair .planar 0 1) w).2.Owns (imagePair .planar 0 1) := by
  obtain ⟨a₀, w₁, hbuild, hstore, hpool, hinner, hanswer⟩ : ∃ a₀ w₁,
      Adapter.build packer ⟨.zero⟩ channelsLastPair channelsLastPair (imagePair .channelsLast 0 1)
        fourImages = (.ok a₀, w₁) ∧ w₁.store = fourImages.store ∧ w₁.scratch.pool = [] ∧
      a₀.inner = some ⟨Script.update { name := "packer" },
        Script.execute Arithmetic.single ⟨.zero⟩ { name := "packer" }⟩ ∧
      ((after (a₀, w₁) planarCalls).1.update (imagePair .planar 0 1)
        (after (a₀, w₁) planarCalls).2).1.toOption = some true :=
    ⟨_, _, rfl, rfl, rfl, rfl, by decide +kernel⟩
  have hkeeps : channelsLastPair.KeepsShapes channelsLastPair := by
    intro p t d ht hd
    rw [ht] at hd
    cases hd
    rfl
  have hconf : ∀ r, a₀.inner = some r → r.Confined := by
    intro r hr
    rw [hinner] at hr
    cases hr
    exact Script.confined _ _ _
  have howns : (after (a₀, w₁) planarCalls).2.Owns (imagePair .planar 0 1) :=
    owns_after hconf (fun change hchange => by simp [planarCalls] at hchange)
      (owns_imagePair hstore hpool)
  rcases hupdate : (after (a₀, w₁) planarCalls).1.update (imagePair .planar 0 1)
    (after (a₀, w₁) planarCalls).2 with ⟨answer, a, w⟩
  rw [hupdate] at hanswer
  cases answer with
  | error e => cases hanswer
  | ok answer =>
    cases hanswer
    obtain ⟨h, hrun⟩ := execute_eq_run_on_preconverted hbuild hkeeps hconf planarCalls
      (imagePair_distinct (by decide)) howns hupdate
    exact ⟨a₀, w₁, hbuild, a, w, h, hupdate, hrun⟩

end Adapter

end KernelDispatch
