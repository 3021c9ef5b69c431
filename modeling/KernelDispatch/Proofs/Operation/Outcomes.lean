import KernelDispatch.Proofs.Operation.Promises
import KernelDispatch.Proofs.Operation.Results

/-
  What a call of a standard executor leaves, with or without an update before it. An executor with
  several candidates updates first, and a pooling checks its operands when it runs: their calls fail
  or leave the result of the operation, unless the program ends. A single executor for another
  operation runs whatever it is given, in physical order, so this is sure only of operands that are
  aligned (`StandardOperation.execute_fails_or_computes`).
-/

namespace KernelDispatch

variable {σ : Type}

/-- The tensors that are bound in one place are bound in another one: those of inputs before a call,
    and that of the destination after it. -/
structure Bindings.Carries (b b' : Bindings) (s s₁ s' s₁' : Store) : Prop where
  inputs : ∀ p, p.isInput = true → ∀ t, b.HasTensor s p t → b'.HasTensor s₁ p t
  unbound : ∀ p, b.get? p = none → b'.get? p = none
  destination : ∀ t, b.HasTensor s' (.destination 0) t → b'.HasTensor s₁' (.destination 0) t

section Carries

variable (arith : Arithmetic) {b b' : Bindings} {s s₁ s' s₁' : Store}

theorem Elementwise.Computes.carry {op : Elementwise} (h : op.Computes arith b s s')
    (hc : b.Carries b' s s₁ s' s₁') : op.Computes arith b' s₁ s₁' := by
  obtain ⟨x, y, hx, hy, hsizes, hresult⟩ := h
  have hsecond : op.second.isInput = true := by cases op <;> rfl
  exact ⟨x, y, hc.inputs _ rfl x hx, hc.inputs _ hsecond y hy, hsizes, hc.destination _ hresult⟩

theorem MatMul.Computes.carry {op : MatMul} (h : op.Computes arith b s s')
    (hc : b.Carries b' s s₁ s' s₁') : op.Computes arith b' s₁ s₁' := by
  obtain ⟨z, x, y, bias, hx, hxsizes, hy, hysizes, hbias, hbiasSizes, hresult⟩ := h
  refine ⟨z, x, y, bias, hc.inputs _ rfl x hx, hxsizes, hc.inputs _ rfl y hy, hysizes, ?_,
    hbiasSizes, hc.destination _ hresult⟩
  cases bias with
  | none => exact hc.unbound _ hbias
  | some t => exact hc.inputs _ rfl t hbias

theorem Pooling.Computes.carry {op : Pooling} (h : op.Computes arith b s s')
    (hc : b.Carries b' s s₁ s' s₁') : op.Computes arith b' s₁ s₁' := by
  obtain ⟨g, x, hx, hsizes, hcovers, hresult⟩ := h
  exact ⟨g, x, hc.inputs _ rfl x hx, hsizes, hcovers, hc.destination _ hresult⟩

end Carries

/-- No other destination has the memory of the first one. -/
def Bindings.SoleDestination (b : Bindings) : Prop :=
  ∀ m q n, b.get? (.destination 0) = some m → q.isOutput = true → q ≠ .destination 0 →
    b.get? q = some n → n.cell ≠ m.cell

/-- What the runner of a call has in its operands, the caller has in theirs. -/
theorem Instance.RunsAs.carries {built : Instance σ} {memory operands : Bindings} {w w₁ : World σ}
    {r : Runner σ} (h : built.RunsAs memory w r operands w₁) {s : Session σ}
    (hrun : r.execute operands w₁.toSession = (.ok (), s)) (hsole : memory.SoleDestination) :
    operands.Carries memory w₁.store w.store s.store (built.execute memory w).2.store where
  inputs _ hp _ ht := h.hasTensor_input hp ht
  unbound p := (h.get?_eq_none_iff p).1
  destination _ ht := h.hasTensor_destination hrun rfl hsole ht

/-- What is held has the same tensors in both worlds. -/
theorem World.Spares.carries {w w' : World σ} (h : w.Spares w') {memory : Bindings}
    (ho : w.Owns memory) (s' : Store) :
    memory.Carries memory w'.store w.store s' s' where
  inputs p _ t ht := by
    obtain ⟨m, hm, hshape, helement⟩ := ht
    have hbytes : w'.store.contents m = w.store.contents m :=
      (h ho.sound).1.bytes _ (ho.held p m hm.1)
    refine ⟨m, hm, hshape, fun index hin => ?_⟩
    rw [← helement index hin, Store.element, Store.element, hbytes]
  unbound _ := id
  destination _ := id

namespace StandardOperation

variable (arith : Arithmetic)

/-- The inputs fit the operation, and the destination is its result. -/
def Computes : (i : StandardOperation) → i.Attributes → Bindings → Store → Store → Prop
  | elementwise, op => op.Computes arith
  | matMul, op => op.Computes arith
  | pooling, op => op.Computes arith

/-- The elements are where the kernels of the operation look for them. Poolings check that
    themselves. -/
def Aligned : (i : StandardOperation) → i.Attributes → Descriptors → Prop
  | elementwise, op => op.Aligned
  | matMul, _ => MatMul.Aligned
  | pooling, _ => fun _ => True

theorem Computes.carry {i : StandardOperation} {attrs : i.Attributes} {b b' : Bindings}
    {s s₁ s' s₁' : Store} (h : Computes arith i attrs b s s') (hc : b.Carries b' s s₁ s' s₁') :
    Computes arith i attrs b' s₁ s₁' := by
  cases i with
  | elementwise => exact Elementwise.Computes.carry arith h hc
  | matMul => exact MatMul.Computes.carry arith h hc
  | pooling => exact Pooling.Computes.carry arith h hc

/-- A run on aligned operands that succeeds leaves the result. -/
theorem Runs.computes {i : StandardOperation} {attrs : i.Attributes} {name : String}
    {r : Runner Unit} (h : Runs arith i attrs name r) {b : Bindings} {s s' : Session Unit}
    (hs : s.store.Has b) (haligned : Aligned i attrs b.descriptors) (hrun : r.execute b s = (.ok (), s')) :
    Computes arith i attrs b s.store s'.store := by
  cases i with
  | elementwise =>
    obtain rfl := h
    exact Elementwise.computes_of_run arith attrs hs haligned (Runner.onStore_execute_eq_ok hrun)
  | matMul =>
    obtain ⟨schedule, -, rfl⟩ := h
    exact MatMul.computes_of_run arith attrs hs haligned (Runner.onStore_execute_eq_ok hrun)
  | pooling =>
    obtain rfl := h
    exact Pooling.computes_of_run arith attrs hs (Runner.onStore_execute_eq_ok hrun)

/-- Operands that a runner consents to are aligned. -/
theorem Runs.aligned_of_update {i : StandardOperation} {attrs : i.Attributes} {name : String}
    {r : Runner Unit} (h : Runs arith i attrs name r) {b : Bindings} {s : Session Unit}
    (hupdate : (r.update b s).1 = .ok true) : Aligned i attrs b.descriptors := by
  cases i with
  | elementwise =>
    obtain rfl := h
    exact Elementwise.aligned_of_uniform attrs
      ((Elementwise.accepts_eq_ok_true_iff attrs b).1 (Runner.accepts_of_onStore_update hupdate))
  | matMul =>
    obtain ⟨schedule, -, rfl⟩ := h
    exact MatMul.aligned_of_planar ((MatMul.accepts_eq_ok_true_iff attrs schedule b).1
      (Runner.accepts_of_onStore_update hupdate)).1
  | pooling => trivial

/-- A call of what has been built, with operands aligned for what it has been built around. -/
theorem fails_or_computes_of_aligned {i : StandardOperation} {attrs : i.Attributes}
    {built : Instance Unit} (hhas : built.Has (Runs arith i attrs built.name)) {memory : Bindings}
    {w : World Unit} (ho : w.Owns memory) (hsole : memory.SoleDestination)
    (haligned : Aligned i attrs (built.handed memory.descriptors)) :
    (∃ e, (built.execute memory w).1 = .error e ∧ e.isReported = true) ∨
      ((built.execute memory w).1 = .ok () ∧
        Computes arith i attrs memory w.store (built.execute memory w).2.store) ∨
      (∃ e, (built.execute memory w).1 = .error e ∧ e.isReported = false) ∧
        memory.descriptors.SingleAt (operands i attrs) ∧
        EndsProgram i attrs built.name memory.descriptors := by
  by_cases hreach : built.Reaches memory
  · obtain ⟨r, operands, w₁, hruns⟩ :=
      hreach.runsAs ho fun r hr => ((hhas r hr).keepsWord arith).confined
    have hr := hhas r hruns.runner_eq
    have hends := ends_iff_of_runsAs arith hruns hr
    cases hresult : (built.execute memory w).1 with
    | error e =>
      rw [hresult] at hends
      cases hreported : e.isReported with
      | true => exact .inl ⟨e, rfl, hreported⟩
      | false => exact .inr (.inr ⟨⟨e, rfl, hreported⟩, hends.1 ⟨e, rfl, hreported⟩⟩)
    | ok u =>
      obtain ⟨s, hrun⟩ : ∃ s, r.execute operands w₁.toSession = (.ok (), s) :=
        ⟨_, Prod.ext (hruns.result.symm.trans hresult) rfl⟩
      rw [← hruns.descriptors_eq] at haligned
      exact .inr (.inl ⟨rfl, (hr.computes arith hruns.owns.has haligned hrun).carry arith
        (hruns.carries hrun hsole)⟩)
  · exact .inl (Instance.execute_error_of_not_reaches hreach w)

/-- What consented is handed aligned operands. -/
theorem aligned_of_consented {i : StandardOperation} {attrs : i.Attributes} {memory : Bindings}
    {built : Instance Unit} (h : Executor.Consented (Runs arith i attrs) memory built) :
    Aligned i attrs (built.handed memory.descriptors) := by
  have hhas := h.has
  obtain ⟨built₀, w₀, w, hhas₀, hupdate⟩ := h
  obtain ⟨r, hr⟩ := (Instance.reaches_of_update hupdate).runner?_eq_some
  have hconsent := Instance.consent_of_update (fun r hr => ((hhas₀ r hr).keepsWord arith).steady)
    hupdate hr (Bindings.descriptors_ofDescriptors _) ⟨{}, ()⟩
  rw [← Bindings.descriptors_ofDescriptors (built.handed memory.descriptors)]
  exact (hhas r hr).aligned_of_update arith hconsent

/-- Let an executor be made by a factory of the standard kernels, for any operands and of any
    selection, and let it go through any history. A call, with or without an update before it, fails
    and its caller is told of it, or leaves the result of the operation on its inputs, which fit the
    operation, or ends the program, on operands with which the kernel that it ran is to work in empty
    bands: always if the factory has several candidates, and otherwise if what the one kernel is
    handed is aligned. No other destination may have the memory of the first one. -/
theorem execute_fails_or_computes (i : StandardOperation) (attrs : i.Attributes)
    {context : Context} {constraints : Constraints} {pattern : Descriptors}
    {priority : Option String} {s s' : Session Unit} {f : Factory i.Attributes Unit}
    (hselect : Factory.select ((catalogue arith).entries i) attrs context pattern constraints
      priority s = (.ok f, s')) {memory₀ : Bindings} {w w₁ : World Unit}
    {e₀ : Executor i.Attributes Unit} (hmake : f.make memory₀ w = (.ok e₀, w₁))
    (calls : List (Call Unit)) {e : Executor i.Attributes Unit} {w₂ : World Unit}
    (hafter : Executor.after (e₀, w₁) calls = (e, w₂)) {memory : Bindings} (ho : w₂.Owns memory)
    (hsole : memory.SoleDestination)
    (haligned : ∀ built, e = .single built → Aligned i attrs (built.handed memory.descriptors)) :
    (∃ err, (e.execute memory w₂).1 = .error err ∧ err.isReported = true) ∨
      ((e.execute memory w₂).1 = .ok () ∧
        Computes arith i attrs memory w₂.store (e.execute memory w₂).2.2.store) ∨
      (∃ err, (e.execute memory w₂).1 = .error err ∧ err.isReported = false) ∧
        memory.descriptors.SingleAt (operands i attrs) ∧
        EndsProgram i attrs (e.execute memory w₂).2.1.name memory.descriptors := by
  obtain ⟨hks, hvets, hmade⟩ := madeOf_after arith i attrs hselect hmake calls
  rw [hafter] at hmade
  rcases hmade.execute_cases (s := (e, w₂))
      (fun _ r hr => ⟨(hr.keepsWord arith).quiet, (hr.keepsWord arith).reports⟩) hks hvets memory with
    hfails | ⟨built, w₃, hcalls, hhas, hone⟩
  · exact .inl hfails
  · have hhanded : Aligned i attrs (built.handed memory.descriptors) := by
      rcases hone with hsingle | hconsented
      · exact haligned built hsingle
      · exact aligned_of_consented arith hconsented
    have hspares : w₂.Spares w₃ := hcalls.spares
    have hresult : (e.execute memory w₂).1 = (built.execute memory w₃).1 := hcalls.result
    have hname : (e.execute memory w₂).2.1.name = built.name := hcalls.name
    have hleft : (e.execute memory w₂).2.2 = (built.execute memory w₃).2 := hcalls.left
    rw [hresult, hname, hleft]
    exact (fails_or_computes_of_aligned arith hhas (hspares.owns ho) hsole hhanded).imp_right
      fun h => h.imp_left fun ⟨hok, hcomputes⟩ =>
        ⟨hok, hcomputes.carry arith (hspares.carries ho _)⟩

theorem soleDestination_pair (d d' : Descriptor) (c c' : Cell) :
    (pair d d' c c').SoleDestination := by
  intro m q n _ hq hne hn
  rcases get?_pair hn with ⟨rfl, -⟩ | ⟨rfl, -⟩
  · cases hq
  · exact absurd rfl hne

/-- An executor for `f32` vectors leaves the result without an update. -/
theorem relu_computes_on_vectors :
    ∃ f s', Factory.select ((catalogue .single).entries elementwise) Elementwise.relu
        (.ofSettings default) (pair (vector .f32) (vector .f32) 0 1).descriptors ∅ none ⟨{}, ()⟩ =
          (.ok f, s') ∧
      ∃ e w, f.make (pair (vector .f32) (vector .f32) 0 1) fourVectors = (.ok e, w) ∧
        w.Owns (pair (vector .f32) (vector .f32) 0 1) ∧
        (e.execute (pair (vector .f32) (vector .f32) 0 1) w).1 = .ok () ∧
        Computes .single elementwise Elementwise.relu (pair (vector .f32) (vector .f32) 0 1) w.store
          (e.execute (pair (vector .f32) (vector .f32) 0 1) w).2.2.store := by
  obtain ⟨f, s', hselect, e, hmake, name, rfl⟩ : ∃ f s',
      Factory.select ((catalogue .single).entries elementwise) Elementwise.relu
        (.ofSettings default) (pair (vector .f32) (vector .f32) 0 1).descriptors ∅ none ⟨{}, ()⟩ =
          (.ok f, s') ∧
      ∃ e, f.make (pair (vector .f32) (vector .f32) 0 1) fourVectors = (.ok e, fourVectors) ∧
        ∃ name, e = .single (.direct name (Elementwise.relu.runner .single)) :=
    ⟨_, _, rfl, _, rfl, _, rfl⟩
  have howns : fourVectors.Owns (pair (vector .f32) (vector .f32) 0 1) :=
    owns_pair rfl ⟨by decide, rfl⟩ ⟨by decide, rfl⟩
  have hruns : ((Elementwise.relu.runner .single).execute (pair (vector .f32) (vector .f32) 0 1)
      fourVectors.toSession).1 = .ok () :=
    (Runner.onStore_execute_isOk_iff _ _).2 <| Elementwise.relu.exists_run_of_sizes .single
      ⟨rfl, rfl⟩ ⟨rfl, rfl⟩ ⟨rfl, rfl⟩ rfl rfl
  have haligned : Elementwise.relu.Aligned (pair (vector .f32) (vector .f32) 0 1).descriptors := by
    refine Elementwise.aligned_of_uniform _
      ⟨vector .f32, rfl, fun p hp => ⟨vector .f32, ?_, rfl, rfl⟩⟩
    obtain rfl := List.mem_singleton.1 hp
    rfl
  refine ⟨f, s', hselect, _, fourVectors, hmake, howns, hruns, ?_⟩
  rcases execute_fails_or_computes .single elementwise Elementwise.relu hselect hmake [] rfl howns
    (soleDestination_pair _ _ _ _) (fun built heq => by cases heq; exact haligned) with
    ⟨err, herr, -⟩ | ⟨-, hcomputes⟩ | ⟨-, -, hends⟩
  · cases hruns.symm.trans herr
  · exact hcomputes
  · exact hends.elim

/-- An image with two channels of two elements. -/
def image (l : Layout) : Descriptor := ⟨.f32, .ofSizes [1, 2, 1, 2], l⟩

/-- The memories of an image that has the elements 1, 2, 3 and 4 if its channels are last, and of a
    zeroed one. -/
def twoImages : World Unit where
  store := ⟨#[.ofSingles #[0x3f800000, 0x40400000, 0x40000000, 0x40800000], Bytes.zeros 16]⟩
  ambient := ()
  scratch := {}

/-- An executor for planar images runs on a source that has its channels last, and leaves the result
    for one element in the place of another. It also runs on a destination of another shape. -/
theorem relu_runs_on_unaligned :
    ∃ f s', Factory.select ((catalogue .single).entries elementwise) Elementwise.relu
        (.ofSettings default) (pair (image .planar) (image .planar) 0 1).descriptors ∅ none
          ⟨{}, ()⟩ = (.ok f, s') ∧
      ∃ e w, f.make (pair (image .planar) (image .planar) 0 1) twoImages = (.ok e, w) ∧
        (w.Owns (pair (image .channelsLast) (image .planar) 0 1) ∧
          ∃ e' w', e.execute (pair (image .channelsLast) (image .planar) 0 1) w = (.ok (), e', w') ∧
            w.store.element ⟨image .channelsLast, 0⟩ [0, 1, 0, 0] = 0x40400000 ∧
            w'.store.element ⟨image .planar, 1⟩ [0, 1, 0, 0] =
              Elementwise.relu.apply .single 0x40000000 0x40000000) ∧
        w.Owns (pair (image .planar) ⟨.f32, .ofSizes [4], .planar⟩ 0 1) ∧
          ∃ e' w', e.execute (pair (image .planar) ⟨.f32, .ofSizes [4], .planar⟩ 0 1) w =
              (.ok (), e', w') ∧
            ¬ Computes .single elementwise Elementwise.relu
              (pair (image .planar) ⟨.f32, .ofSizes [4], .planar⟩ 0 1) w.store w'.store := by
  have hreshaped : twoImages.Owns (pair (image .planar) ⟨.f32, .ofSizes [4], .planar⟩ 0 1) :=
    owns_pair rfl ⟨by decide, rfl⟩ ⟨by decide, rfl⟩
  have hmixed : twoImages.Owns (pair (image .channelsLast) (image .planar) 0 1) :=
    owns_pair rfl ⟨by decide, rfl⟩ ⟨by decide, rfl⟩
  -- the memories have one size, so each call succeeds
  have hsizes : (twoImages.store.bytes 1).size = 4 * ((twoImages.store.bytes 0).size / 4) := by
    show (Bytes.zeros 16).size = 4 * ((Bytes.ofSingles _).size / 4)
    rw [Bytes.size_ofSingles]
    rfl
  have hruns : ∀ d d' : Descriptor, d.elementType = .f32 → d'.elementType = .f32 →
      ((Elementwise.relu.runner .single).execute (pair d d' 0 1) twoImages.toSession).1 = .ok () :=
    fun d d' hd hd' => (Runner.onStore_execute_isOk_iff _ _).2 <|
      Elementwise.relu.exists_run_of_sizes .single ⟨rfl, hd'⟩ ⟨rfl, hd⟩ ⟨rfl, hd⟩ rfl hsizes
  refine ⟨_, _, rfl, _, twoImages, rfl,
    ⟨hmixed, _, _, Prod.ext (hruns _ _ rfl rfl) rfl, by decide, ?_⟩,
    hreshaped, _, _, Prod.ext (hruns _ _ rfl rfl) rfl, ?_⟩
  · have hrun := Runner.onStore_execute_eq_ok (Prod.ext (hruns (image .channelsLast) (image .planar)
      rfl rfl) rfl)
    have hthird : (twoImages.store.bytes 0).singles.getD 2 .zero = 0x40000000 := by decide +kernel
    have hin : Index.InBounds [1, 2, 1, 2] [0, 1, 0, 0] :=
      ⟨by decide, by decide, by decide, by decide, trivial⟩
    exact (Elementwise.relu.element_of_run .single hmixed.has hrun ⟨rfl, rfl⟩ ⟨rfl, rfl⟩ ⟨rfl, rfl⟩
      rfl hin).trans (congrArg (fun x => Elementwise.relu.apply .single x x) hthird)
  · rintro ⟨x, y, ⟨m, hm, hshape, -⟩, -, -, t, ht, htshape, -⟩
    cases hm.1
    cases ht.1
    cases hshape.trans htshape.symm

end StandardOperation

end KernelDispatch
