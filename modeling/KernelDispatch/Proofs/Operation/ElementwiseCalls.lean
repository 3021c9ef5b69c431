import KernelDispatch.Proofs.Operation.Negotiation
import KernelDispatch.Proofs.Operation.Results

/-
  Elementwise operations from selection to the result, on operands of one descriptor. One of the two
  kernels or both are candidates for them, and whichever is called first takes them at once, whether
  it is built for them or chosen by a dispatcher (`Factory.call_of_obliges`). It goes through the
  memories in physical order, which is the same in all of them, so no layout enters the result, and
  memories may be shared (`StandardOperation.elementwise_leaves_results`).
-/

namespace KernelDispatch

/-! ## The first call -/

section

variable {α σ β : Type}

theorem World.run_of_same {w : World σ} {step : Session σ → β × Session σ} {b : β}
    (h : step w.toSession = (b, w.toSession)) : w.run step = (b, w) := by
  unfold run
  rw [h]

/-- The kernel says yes to the operands, prefers no others and builds a runner that says yes as
    well, all of it without a trace. -/
structure Kernel.Obliges (k : Kernel α σ) (attrs : α) (c : Constraints) (memory : Bindings)
    (s : Session σ) (r : Runner σ) : Prop where
  supports : k.supports attrs memory.descriptors c s = (true, s)
  acceptsShapes : k.acceptsShapes memory s = (true, s)
  preferred : k.preferred attrs memory.descriptors s = (none, s)
  build : k.build attrs memory s = (.ok r, s)
  update : r.update memory s = (.ok true, s)

variable {k : Kernel α σ} {memory : Bindings} {w : World σ} {r : Runner σ}

theorem Kernel.Obliges.instance_build {attrs : α} {c : Constraints}
    (h : k.Obliges attrs c memory w.toSession r) :
    Instance.build k attrs memory.descriptors none memory w = (.ok (.direct k.name r), w) := by
  unfold Instance.build
  rw [World.run_of_same h.build]

theorem Instance.execute_direct {s : Session σ}
    (h : r.execute memory w.toSession = (.ok (), s)) (name : String) :
    (direct name r).execute memory w = (.ok (), { w with toSession := s }) := by
  show w.run (r.execute memory) = _
  unfold World.run
  rw [h]

namespace Dispatcher

/-- The dispatcher once a candidate has been built for its operands and takes them. -/
def taking (d : Dispatcher α σ) (i : Nat) (k : Kernel α σ) (r : Runner σ) (memory : Bindings) :
    Dispatcher α σ :=
  { d.setSlot i ⟨Route.of none, .direct k.name r⟩ with
    decisions := d.decisions.store memory.descriptors { index := i, route := Route.of none }
    resolved := some (memory.descriptors, i) }

/-- The walk ends at a candidate that obliges. -/
theorem walk_of_obliges {d : Dispatcher α σ} {i : Nat} (hslot : d.slot? i = none)
    (h : k.Obliges d.attrs d.constraints memory w.toSession r) (rest : List (Kernel α σ × Nat)) :
    walk memory ((k, i) :: rest) d w = (.ok true, d.taking i k r memory, w) := by
  have hpasses : d.passes k memory w = (true, w) := by
    unfold passes
    rw [World.run_of_same h.supports]
    exact World.run_of_same h.acceptsShapes
  have htry : d.trySelect i k (Route.of none) (some none) memory w =
      (.ok true, d.setSlot i ⟨Route.of none, .direct k.name r⟩, w) := by
    unfold trySelect
    rw [hslot, Option.filter_none]
    dsimp only
    rw [h.instance_build]
    dsimp only [offer, Instance.update]
    rw [World.run_of_same h.update]
  rw [walk, hpasses]
  dsimp only
  rw [World.run_of_same h.preferred]
  dsimp only
  rw [htry]
  rfl

/-- A new dispatcher runs its first candidate if that obliges. -/
theorem execute_of_obliges [Operation α] {attrs : α} {c : Constraints} {s : Session σ}
    (h : k.Obliges attrs c memory w.toSession r)
    (hexecute : r.execute memory w.toSession = (.ok (), s)) (ks : List (Kernel α σ))
    (context : Context) :
    ∃ d, (ofCandidates (k :: ks) attrs c context).execute memory w =
        (.ok (), d, { w with toSession := s }) ∧ d.name = k.name := by
  have hupdate : (ofCandidates (k :: ks) attrs c context).update memory w =
      (.ok true, (ofCandidates (k :: ks) attrs c context).taking 0 k r memory, w) :=
    walk_of_obliges rfl h _
  have hselected : ((ofCandidates (k :: ks) attrs c context).taking 0 k r memory).selected? =
      some ⟨Route.of none, .direct k.name r⟩ := rfl
  refine ⟨(ofCandidates (k :: ks) attrs c context).taking 0 k r memory, ?_, rfl⟩
  unfold execute
  rw [hupdate]
  dsimp only
  rw [hselected]
  dsimp only
  rw [Instance.execute_direct hexecute k.name]

end Dispatcher

/-- An executor that is made for operands and called on them runs the first candidate if that
    obliges, whether or not there are others. -/
theorem Factory.call_of_obliges [Operation α] {f : Factory α σ} {ks : List (Kernel α σ)}
    {s : Session σ} (hfound : f.candidates = k :: ks)
    (h : k.Obliges f.attrs f.constraints memory w.toSession r)
    (hexecute : r.execute memory w.toSession = (.ok (), s)) :
    ∃ e, f.make memory w = (.ok e, w) ∧ ∃ e', e.execute memory w =
      (.ok (), e', { w with toSession := s }) ∧ e'.name = k.name := by
  obtain ⟨attrs, context, c, found⟩ := f
  obtain rfl : found = k :: ks := hfound
  cases ks with
  | nil =>
    refine ⟨.single (.direct k.name r), ?_, .single (.direct k.name r), ?_, rfl⟩
    · unfold make
      dsimp only
      rw [World.run_of_same h.preferred]
      dsimp only
      rw [h.instance_build]
    · unfold Executor.execute
      dsimp only
      rw [Instance.execute_direct hexecute]
  | cons k' ks =>
    obtain ⟨d, hd, hname⟩ := Dispatcher.execute_of_obliges h hexecute (k' :: ks) context
    refine ⟨_, rfl, .deferred d, ?_, hname⟩
    unfold Executor.execute
    dsimp only
    rw [hd]

end

namespace Elementwise

variable {op : Elementwise} {b : Bindings} {d : Descriptor}

/-! ## Operands of one descriptor -/

/-- The operands of the operation are bound, and everything that is bound has one descriptor, with
    `f32` elements. -/
structure Shares (op : Elementwise) (b : Bindings) (d : Descriptor) : Prop where
  single : d.elementType = .f32
  bound : ∀ p ∈ op.operands, ∃ m, b.get? p = some m
  desc : ∀ p m, b.get? p = some m → m.desc = d

namespace Shares

theorem bindsSingle (h : op.Shares b d) {p : Operand} (hp : p ∈ op.operands) :
    ∃ m, b.BindsSingle p m ∧ m.desc = d := by
  obtain ⟨m, hm⟩ := h.bound p hp
  have hdesc := h.desc p m hm
  exact ⟨m, ⟨hm, hdesc ▸ h.single⟩, hdesc⟩

theorem descriptors_get? (h : op.Shares b d) {p : Operand} (hp : p ∈ op.operands) :
    b.descriptors.get? p = some d := by
  obtain ⟨m, hm⟩ := h.bound p hp
  exact (b.descriptors_get?_eq_some_iff p d).2 ⟨m, hm, h.desc p m hm⟩

theorem desc_of_descriptors_get? (h : op.Shares b d) {p : Operand} {d' : Descriptor}
    (hd' : b.descriptors.get? p = some d') : d' = d := by
  obtain ⟨m, hm, rfl⟩ := (b.descriptors_get?_eq_some_iff p d').1 hd'
  exact h.desc p m hm

theorem fits (h : op.Shares b d) : op.fits b.descriptors = true := by
  refine (op.fits_iff _).2 ⟨d, h.descriptors_get? List.mem_cons_self, fun p hp => ?_, ?_⟩
  · exact ⟨d, h.descriptors_get? (List.mem_cons_of_mem _ hp), rfl⟩
  · refine (Descriptors.allSingle_iff _).2 fun p d' hd' => ?_
    rw [h.desc_of_descriptors_get? hd']
    exact h.single

theorem allInLayout_iff (h : op.Shares b d) (l : Layout) :
    b.descriptors.allInLayout l = true ↔ d.layout = l := by
  rw [Descriptors.allInLayout_iff]
  constructor
  · exact fun hall => hall _ d (h.descriptors_get? List.mem_cons_self)
  · rintro rfl p d' hd'
    rw [h.desc_of_descriptors_get? hd']

theorem supportsShared (h : op.Shares b d) : op.supportsShared b.descriptors ∅ = true := by
  unfold Elementwise.supportsShared
  rw [h.fits, h.descriptors_get? List.mem_cons_self, Option.any_some,
    (h.allInLayout_iff d.layout).2 rfl, Constraints.admits_empty]
  rfl

/-- The kernel for whole blocks supports operands in blocks of eight without padding. -/
theorem supportsBlocked_iff (h : op.Shares b d) {sizes : List Nat}
    (hshape : d.shape = .ofSizes sizes) (hfit : d.layout.fitsRank sizes.length = true) :
    op.supportsBlocked b.descriptors ∅ = true ↔
      d.layout = .blocked block ∧ d.layout.isDense sizes = true := by
  have hsource : b.descriptors.get? (.source 0) = some d :=
    h.descriptors_get? (List.mem_cons_of_mem _ op.source_zero_mem_sources)
  unfold Elementwise.supportsBlocked
  rw [h.fits, Constraints.admits_empty, Bool.true_and, Bool.and_true, Bool.and_eq_true,
    h.allInLayout_iff]
  refine and_congr_right fun hlayout => ?_
  rw [hlayout] at hfit ⊢
  obtain ⟨n, channels, rest, rfl⟩ := Layout.exists_cons_of_fitsRank hfit (by simp)
  have hchannels : b.descriptors.size? (.source 0) 1 = some channels := by
    unfold Descriptors.size? Descriptors.axis?
    rw [hsource, Option.bind_some, hshape, Shape.axis?_ofSizes]
    rfl
  rw [hchannels]
  rfl

theorem uniform (h : op.Shares b d) : op.Uniform b.descriptors :=
  ⟨d, h.descriptors_get? List.mem_cons_self, fun _ hp =>
    ⟨d, h.descriptors_get? (List.mem_cons_of_mem _ hp), rfl, rfl⟩⟩

end Shares

/-! ## The kernels -/

section

variable {σ : Type} (arith : Arithmetic) {s : Session σ}

theorem Shares.blocked_obliges (h : op.Shares b d) (hhas : s.store.Has b)
    (hblocked : op.supportsBlocked b.descriptors ∅ = true) :
    (blockedKernel arith).Obliges op ∅ b s (op.runner arith) where
  supports := congrArg (·, s) hblocked
  acceptsShapes := by
    refine congrArg (·, s) (op.fillsBlocks_of_supportsBlocked ∅ (fun p d' hd' => ?_) hblocked)
    obtain ⟨m, hm, rfl⟩ := (b.descriptors_get?_eq_some_iff p d').1 hd'
    exact ⟨_, (hhas p m hm).2⟩
  preferred := rfl
  build := rfl
  update := by
    show ((op.accepts b).mapError Error.memory, s) = _
    rw [(op.accepts_eq_ok_true_iff b).2 h.uniform]
    rfl

theorem Shares.shared_obliges (h : op.Shares b d) :
    (sharedKernel arith).Obliges op ∅ b s (op.runner arith) where
  supports := congrArg (·, s) h.supportsShared
  acceptsShapes := rfl
  preferred := rfl
  build := rfl
  update := by
    show ((op.accepts b).mapError Error.memory, s) = _
    rw [(op.accepts_eq_ok_true_iff b).2 h.uniform]
    rfl

/-- Operands of one descriptor have one or both of the kernels for candidates. -/
theorem Shares.candidates (h : op.Shares b d) :
    KernelDispatch.candidates (kernels arith) op b.descriptors ∅ none s =
      (.ok (if op.supportsBlocked b.descriptors ∅ = true then kernels arith
        else [sharedKernel arith]), s) := by
  have hshared := h.supportsShared
  cases hblocked : op.supportsBlocked b.descriptors ∅ with
  | true =>
    simp [KernelDispatch.candidates, supporting, kernels, blockedKernel, sharedKernel, Ask.answer,
      hblocked, hshared]
  | false =>
    simp [KernelDispatch.candidates, supporting, kernels, blockedKernel, sharedKernel, Ask.answer,
      hblocked, hshared]

end

/-! ## The run -/

variable (arith : Arithmetic) {s s' : Store}

theorem Shares.exists_run (h : op.Shares b d) (hhas : s.Has b) :
    ∃ s', op.run arith b s = .ok s' := by
  have hfits : ∀ {p m}, b.BindsSingle p m → s.Fits m := fun hm => (hhas _ _ hm.1).2
  obtain ⟨t, ht, htdesc⟩ := h.bindsSingle List.mem_cons_self
  obtain ⟨x, hx, hxdesc⟩ := h.bindsSingle
    (List.mem_cons_of_mem _ ((op.mem_sources_iff _).2 (.inl rfl)))
  obtain ⟨y, hy, hydesc⟩ := h.bindsSingle
    (List.mem_cons_of_mem _ ((op.mem_sources_iff _).2 (.inr rfl)))
  refine op.exists_run_of_sizes arith ht hx hy ?_ ?_
  · exact (hfits hy).size_eq_size (hfits hx) (hydesc.trans hxdesc.symm)
  · rw [(hfits ht).size_eq_size (hfits hx) (htdesc.trans hxdesc.symm)]
    exact (hfits hx).size_eq_whole hx.2

/-- An element of the destination is made of the elements that the sources had at its index, and
    other memories are as they were. -/
theorem Shares.element_of_run (h : op.Shares b d) (hhas : s.Has b)
    (hrun : op.run arith b s = .ok s') {sizes : List Nat} (hshape : d.shape = .ofSizes sizes) :
    ∃ x y t, b.get? (.source 0) = some x ∧ b.get? op.second = some y ∧
      b.get? (.destination 0) = some t ∧
      (∀ index, Index.InBounds sizes index → s'.element t index =
        op.apply arith (s.element x index) (s.element y index)) ∧
      ∀ m, m.cell ≠ t.cell → s'.contents m = s.contents m := by
  obtain ⟨t, x, y, ht, hx, hy, -, -, hs'⟩ := (op.run_eq_ok_iff arith b s s').1 hrun
  have htdesc := h.desc _ _ ht.1
  have hplace : ∀ {p m}, b.BindsSingle p m → ∀ index, Index.InBounds sizes index →
      (s.contents m).singles.getD (t.desc.layout.offset sizes index) .zero =
        s.element m index := by
    intro p m hm index hin
    have hdesc := h.desc _ _ hm.1
    rw [htdesc, ← hdesc]
    exact Store.getD_singles (hhas _ _ hm.1).2 hm.2 (hdesc ▸ hshape) hin
  refine ⟨x, y, t, hx.1, hy.1, ht.1, fun index hin => ?_, fun m hm => ?_⟩
  · rw [op.element_of_run arith hhas hrun ht hx hy (htdesc ▸ hshape) hin, hplace hx index hin,
      hplace hy index hin]
  · rw [hs']
    unfold Store.contents
    rw [Store.bytes_put, if_neg fun hcell => hm hcell.1.symm]

end Elementwise

namespace StandardOperation

/-- Let the operands of an elementwise operation be memories of one shape and one layout, with `f32`
    elements, which may be the same memory; let no name be prescribed and no layout be ruled out.
    Selecting for these operands, making an executor for them and calling it succeed. The kernel for
    whole blocks is run on operands in blocks of eight without padding, the other one on all others.
    Each element of the destination is what the operation makes of the elements that the sources had
    at its index, whatever the layout, and memories other than the destination are as they were. -/
theorem elementwise_leaves_results (arith : Arithmetic) (op : Elementwise) {context : Context}
    (hoverride : context.overrides.priorityFor (Operation.key Elementwise) = none)
    {d : Descriptor} {memory : Bindings} {w : World Unit} (hhas : w.store.Has memory)
    (hshares : op.Shares memory d) :
    ∃ f, Factory.select ((catalogue arith).entries elementwise) op context memory.descriptors ∅ none
        w.toSession = (.ok f, w.toSession) ∧
      ∃ e, f.make memory w = (.ok e, w) ∧
        ∃ e' s', e.execute memory w = (.ok (), e', { w with store := s' }) ∧
          ∃ sizes x y t, d.shape = .ofSizes sizes ∧
            e'.name = (if d.layout = .blocked 8 ∧ d.layout.isDense sizes = true
              then "eltwise_blocked" else "eltwise_any_layout") ∧
            memory.get? (.source 0) = some x ∧ memory.get? op.second = some y ∧
            memory.get? (.destination 0) = some t ∧
            (∀ index, Index.InBounds sizes index → s'.element t index =
              op.apply arith (w.store.element x index) (w.store.element y index)) ∧
            ∀ m, m.cell ≠ t.cell → s'.contents m = w.store.contents m := by
  obtain ⟨m, hm⟩ := hshares.bound (.destination 0) List.mem_cons_self
  obtain ⟨sizes, hshape, hfit⟩ := Descriptor.Allocatable.sizes ⟨_, (hhas _ m hm).2⟩
  rw [hshares.desc _ m hm] at hshape hfit
  obtain ⟨s', hrun⟩ := hshares.exists_run arith hhas
  have hexecute : (op.runner (σ := Unit) arith).execute memory w.toSession =
      (.ok (), { w.toSession with store := s' }) :=
    Runner.onStore_execute_of_run hrun
  obtain ⟨x, y, t, hx, hy, ht, helements, hothers⟩ :=
    hshares.element_of_run arith hhas hrun hshape
  have hblocked := hshares.supportsBlocked_iff hshape hfit
  refine ⟨_, Factory.select_of_candidates hoverride
    (hshares.candidates (s := w.toSession) arith), ?_⟩
  have hcall : ∃ (k : Kernel Elementwise Unit) (ks : List (Kernel Elementwise Unit)),
      (if op.supportsBlocked memory.descriptors ∅ = true then Elementwise.kernels arith
        else [Elementwise.sharedKernel arith]) = k :: ks ∧
      k.name = (if d.layout = .blocked 8 ∧ d.layout.isDense sizes = true
        then "eltwise_blocked" else "eltwise_any_layout") ∧
      k.Obliges op ∅ memory w.toSession (op.runner arith) := by
    by_cases hdense : d.layout = .blocked 8 ∧ d.layout.isDense sizes = true
    · rw [if_pos (hblocked.2 hdense), if_pos hdense]
      exact ⟨_, _, rfl, rfl, hshares.blocked_obliges arith hhas (hblocked.2 hdense)⟩
    · rw [if_neg fun h => hdense (hblocked.1 h), if_neg hdense]
      exact ⟨_, _, rfl, rfl, hshares.shared_obliges arith⟩
  obtain ⟨k, ks, hfound, hname, hobliges⟩ := hcall
  obtain ⟨e, hmake, e', hcalled, hcalledname⟩ :=
    Factory.call_of_obliges (f := ⟨op, context, ∅, _⟩) hfound hobliges hexecute
  exact ⟨e, hmake, e', s', hcalled, sizes, x, y, t, hshape, hcalledname.trans hname, hx, hy, ht,
    helements, hothers⟩

/-! ## A sum in place -/

/-- Eight channels in one block. -/
def oneBlock : Descriptor := ⟨.f32, .ofSizes [1, 8], .blocked 8⟩

/-- The operands of a sum whose first source is its destination. -/
def sumInPlace : Bindings :=
  .ofList [(.source 0, ⟨oneBlock, 0⟩), (.source 1, ⟨oneBlock, 1⟩), (.destination 0, ⟨oneBlock, 0⟩)]

/-- Their memories: eight ones and eight twos. -/
def onesAndTwos : World Unit where
  store := ⟨#[.ofSingles (Array.replicate 8 0x3f800000), .ofSingles (Array.replicate 8 0x40000000)]⟩
  ambient := ()
  scratch := {}

theorem get?_sumInPlace {p : Operand} {m : Memory} (h : sumInPlace.get? p = some m) :
    m = ⟨oneBlock, 0⟩ ∨ m = ⟨oneBlock, 1⟩ := by
  have hmem : (p, m) ∈ sumInPlace.entries := (OrderedMap.get?_eq_some_iff _).1 h
  change (p, m) ∈ [(Operand.source 0, _), (.source 1, _), (.destination 0, _)] at hmem
  simp only [List.mem_cons, List.not_mem_nil, or_false, Prod.mk.injEq] at hmem
  rcases hmem with ⟨-, rfl⟩ | ⟨-, rfl⟩ | ⟨-, rfl⟩
  · exact .inl rfl
  · exact .inr rfl
  · exact .inl rfl

theorem sumInPlace_shares : Elementwise.add.Shares sumInPlace oneBlock := by
  refine ⟨rfl, fun p hp => ?_, fun p m hm => ?_⟩
  · simp only [Elementwise.operands, Elementwise.sources, Elementwise.arity, List.mem_cons,
      List.take, List.not_mem_nil, or_false] at hp
    rcases hp with rfl | rfl | rfl <;> exact ⟨_, rfl⟩
  · rcases get?_sumInPlace hm with rfl | rfl <;> rfl

/-- The sum is left where the ones were, and the twos stay. -/
theorem sumInPlace_leaves_threes :
    ∃ f, Factory.select ((catalogue .single).entries elementwise) Elementwise.add
        (.ofSettings default) sumInPlace.descriptors ∅ none onesAndTwos.toSession =
          (.ok f, onesAndTwos.toSession) ∧
      ∃ e, f.make sumInPlace onesAndTwos = (.ok e, onesAndTwos) ∧
        ∃ e' s', e.execute sumInPlace onesAndTwos = (.ok (), e', { onesAndTwos with store := s' }) ∧
          e'.name = "eltwise_blocked" ∧ s'.element ⟨oneBlock, 0⟩ [0, 5] = 0x40400000 ∧
          s'.bytes 1 = onesAndTwos.store.bytes 1 := by
  have hhas : onesAndTwos.store.Has sumInPlace := by
    intro p m hm
    rcases get?_sumInPlace hm with rfl | rfl <;> exact ⟨by decide, rfl⟩
  obtain ⟨f, hselect, e, hmake, e', s', hexecute, sizes, x, y, t, hshape, hname, hx, hy, ht,
    helements, hothers⟩ := elementwise_leaves_results .single .add
      (show (Context.ofSettings default).overrides.priorityFor _ = none from rfl) hhas
      sumInPlace_shares
  cases hx
  cases hy
  cases ht
  cases Shape.ofSizes_injective hshape
  refine ⟨f, hselect, e, hmake, e', s', hexecute, hname, ?_, ?_⟩
  · rw [helements [0, 5] ⟨by decide, by decide, trivial⟩]
    decide +kernel
  · exact hothers ⟨oneBlock, 1⟩ (by decide)

end StandardOperation

end KernelDispatch
