import KernelDispatch.Proofs.Dispatch.Quiet
import KernelDispatch.Proofs.Dispatch.Recorded

/-
  Kernels under inquiry. What the candidates of a dispatcher are asked, and how each request to
  build one of them ends, is entered into a log that they cannot reach. What has been built enters
  nothing, neither when it is updated nor when it is run (`update_log`, `execute_log`), so a log
  grows by the questions of a walk and by requests to build, one at a time (`build_log`). A walk
  consists of turns, one for each candidate that it comes to (`Dispatcher.walk_ends`).
-/

namespace KernelDispatch

/-- What a candidate is asked before anything of it is run. -/
inductive Inquiry where
  | supports (candidate : Nat)
  | accepts (candidate : Nat)
  | preferred (candidate : Nat)
  /-- A request to build, with the operands, the store at that time, and the failure if it
      fails. -/
  | build (candidate : Nat) (operands : Bindings) (store : Store) (failure : Option Failure)

namespace Inquiry

/-- Whether a predicate is evaluated. -/
def isPredicate : Inquiry → Bool
  | supports _ | accepts _ => true
  | preferred _ | build .. => false

/-- Whether the candidate is to be built. -/
def asksFor (i : Nat) : Inquiry → Bool
  | build j .. => j == i
  | supports _ | accepts _ | preferred _ => false

/-- Whether the candidate is to be built and this succeeds. -/
def yields (i : Nat) : Inquiry → Bool
  | build j _ _ none => j == i
  | build _ _ _ (some _) | supports _ | accepts _ | preferred _ => false

/-- A request to build on the operands, and its result. -/
def ofBuild {σ : Type} (candidate : Nat) (operands : Bindings) (s : Session σ) :
    Except Failure (Runner σ) → Inquiry
  | .ok _ => build candidate operands s.store none
  | .error e => build candidate operands s.store (some e)

end Inquiry

/-- Surroundings with a log of all inquiries, the latest first. -/
structure Inquired (σ : Type) where
  inner : σ
  log : List Inquiry := []

/-- A runner that enters nothing. -/
structure Runner.Silent {σ : Type} (r : Runner (Inquired σ)) : Prop where
  update : ∀ b s, (r.update b s).2.ambient.log = s.ambient.log
  execute : ∀ b s, (r.execute b s).2.ambient.log = s.ambient.log

namespace Inquired

variable {α σ β : Type}

/-- The session that candidates see. -/
def view (s : Session (Inquired σ)) : Session σ := ⟨s.store, s.ambient.inner⟩

/-- A step that enters what there is to say about it. -/
def entering (inquiries : Session σ → β → List Inquiry) (step : Session σ → β × Session σ) :
    Ask (Inquired σ) β := fun s =>
  let (b, t) := step (view s)
  (b, ⟨t.store, ⟨t.ambient, inquiries (view s) b ++ s.ambient.log⟩⟩)

/-- A runner whose steps are not entered. -/
def runner (r : Runner σ) : Runner (Inquired σ) where
  update b := entering (fun _ _ => []) (r.update b)
  execute b := entering (fun _ _ => []) (r.execute b)

/-- A candidate under inquiry. -/
def kernel (candidate : Nat) (k : Kernel α σ) : Kernel α (Inquired σ) where
  name := k.name
  origin := k.origin
  shapeAgnostic := k.shapeAgnostic
  supports attrs ds c := entering (fun _ _ => [.supports candidate]) (k.supports attrs ds c)
  preferred attrs ds := entering (fun _ _ => [.preferred candidate]) (k.preferred attrs ds)
  acceptsShapes b := entering (fun _ _ => [.accepts candidate]) (k.acceptsShapes b)
  build attrs b s :=
    let (result, s) :=
      entering (fun t result => [.ofBuild candidate b t result]) (k.build attrs b) s
    (result.map runner, s)

/-- All candidates under inquiry, by their places. -/
def kernels (ks : List (Kernel α σ)) : List (Kernel α (Inquired σ)) := ks.mapIdx kernel

@[simp] theorem length_kernels (ks : List (Kernel α σ)) : (kernels ks).length = ks.length :=
  List.length_mapIdx

theorem kernels_getElem?_eq_some_iff {ks : List (Kernel α σ)} {i : Nat}
    {k : Kernel α (Inquired σ)} :
    (kernels ks)[i]? = some k ↔ ∃ k', ks[i]? = some k' ∧ k = kernel i k' := by
  unfold kernels
  rw [List.getElem?_mapIdx, Option.map_eq_some_iff]
  exact exists_congr fun k' => and_congr_right fun _ => eq_comm

/-- The world that candidates see. -/
def viewWorld (w : World (Inquired σ)) : World σ :=
  { toSession := view w.toSession, scratch := w.scratch }

/-- A call, for an executor under inquiry. What happens elsewhere is not entered. -/
def call : Call σ → Call (Inquired σ)
  | .update memory => .update memory
  | .execute memory => .execute memory
  | .elsewhere change => .elsewhere fun w =>
    let w' := change (viewWorld w)
    { store := w'.store, ambient := ⟨w'.ambient, w.ambient.log⟩, scratch := w'.scratch }

/-- A world with nothing in its log. -/
def start (w : World σ) : World (Inquired σ) :=
  { store := w.store, ambient := { inner := w.ambient }, scratch := w.scratch }

/-! ## What is entered -/

@[simp] theorem supports_log (i : Nat) (k : Kernel α σ) (attrs : α) (ds : Descriptors)
    (c : Constraints) (w : World (Inquired σ)) :
    (w.run ((kernel i k).supports attrs ds c)).2.ambient.log = .supports i :: w.ambient.log := rfl

@[simp] theorem acceptsShapes_log (i : Nat) (k : Kernel α σ) (memory : Bindings)
    (w : World (Inquired σ)) :
    (w.run ((kernel i k).acceptsShapes memory)).2.ambient.log = .accepts i :: w.ambient.log := rfl

@[simp] theorem preferred_log (i : Nat) (k : Kernel α σ) (attrs : α) (ds : Descriptors)
    (w : World (Inquired σ)) :
    (w.run ((kernel i k).preferred attrs ds)).2.ambient.log = .preferred i :: w.ambient.log := rfl

theorem runner_silent (r : Runner σ) : (runner r).Silent := ⟨fun _ _ => rfl, fun _ _ => rfl⟩

/-- A request to build is entered, with its failure if it fails. What is built enters nothing. -/
theorem kernel_build (i : Nat) (k : Kernel α σ) (attrs : α) (b : Bindings)
    (s : Session (Inquired σ)) :
    ∃ failure, ((kernel i k).build attrs b s).2.ambient.log =
        .build i b s.store failure :: s.ambient.log ∧
      match failure with
      | none => ∃ r, ((kernel i k).build attrs b s).1 = .ok (runner r) ∧
          (k.build attrs b (view s)).1 = .ok r
      | some e => ((kernel i k).build attrs b s).1 = .error e ∧
          (k.build attrs b (view s)).1 = .error e := by
  rcases hbuild : k.build attrs b (view s) with ⟨e | r, t⟩ <;>
    simp only [kernel, entering, hbuild, Inquiry.ofBuild, Except.map]
  · exact ⟨some e, rfl, rfl, rfl⟩
  · exact ⟨none, rfl, r, rfl, rfl⟩

/-- Building enters one request at most. What is left of one that succeeds is built, and it enters
    nothing. -/
theorem build_log {i : Nat} {k : Kernel α σ} {attrs : α} {ds : Descriptors}
    {preferred : Option Descriptors} {memory : Bindings} {w w' : World (Inquired σ)}
    {r : Except Error (Instance (Inquired σ))}
    (h : Instance.build (kernel i k) attrs ds preferred memory w = (r, w')) :
    (∀ built, r = .ok built → built.Has Runner.Silent) ∧
      (w'.ambient.log = w.ambient.log ∨ ∃ b store failure,
        w'.ambient.log = .build i b store failure :: w.ambient.log ∧
          ∀ e, r = .error e → failure.isSome = true) := by
  rcases Instance.build_runner h with ⟨hambient, hnone⟩ | ⟨staged, s, hs, hambient, hfails, hsome⟩
  · refine ⟨fun built hb r hr => ?_, .inl (congrArg log hambient)⟩
    rw [hnone built hb] at hr
    cases hr
  · obtain ⟨failure, hlog, hresult⟩ := kernel_build i k attrs staged s
    refine ⟨fun built hb r hr => ?_, .inr ⟨staged, s.store, failure, ?_, fun e he => ?_⟩⟩
    · obtain ⟨r', hr', hbuilt⟩ := hsome built hb
      rw [hbuilt] at hr
      cases hr
      cases failure with
      | none =>
        obtain ⟨r₁, hr₁, -⟩ := hresult
        rw [hr₁] at hr'
        cases hr'
        exact runner_silent r₁
      | some e =>
        rw [hresult.1] at hr'
        cases hr'
    · rw [congrArg log hambient, hlog, hs]
    · obtain ⟨cause, hcause⟩ := hfails e he
      cases failure with
      | none =>
        obtain ⟨r₁, hr₁, -⟩ := hresult
        rw [hr₁] at hcause
        cases hcause
      | some e => rfl

theorem withStaged_log (w : World (Inquired σ)) (memory : Bindings) (wanted : Descriptors)
    {body : Bindings → World (Inquired σ) → Except Error β × World (Inquired σ)}
    (hbody : ∀ staged w, (body staged w).2.ambient.log = w.ambient.log) :
    (w.withStaged memory wanted body).2.ambient.log = w.ambient.log := by
  rcases w.withStaged_ambient memory wanted body with hw | ⟨staged, w₁, hw₁, hw⟩
  · rw [hw]
  · rw [hw, hbody, hw₁]

theorem update_log {built : Instance (Inquired σ)} (h : built.Has Runner.Silent)
    (memory : Bindings) (w : World (Inquired σ)) :
    (built.update memory w).2.2.ambient.log = w.ambient.log := by
  cases built with
  | direct name r => exact (h r rfl).update memory w.toSession
  | adapted a =>
    show (a.update memory w).2.2.ambient.log = _
    unfold Adapter.update
    dsimp only
    split
    · rename_i r _ hinner
      rw [Adapter.follow_inner] at hinner
      exact withStaged_log w memory _ fun staged w => (h r hinner).update staged w.toSession
    · rfl

theorem execute_log {built : Instance (Inquired σ)} (h : built.Has Runner.Silent)
    (memory : Bindings) (w : World (Inquired σ)) :
    (built.execute memory w).2.ambient.log = w.ambient.log := by
  cases built with
  | direct name r => exact (h r rfl).execute memory w.toSession
  | adapted a =>
    show (a.execute memory w).2.ambient.log = _
    unfold Adapter.execute
    split
    · rfl
    · split
      · rfl
      · rename_i r hinner
        refine withStaged_log w memory _ fun staged w => ?_
        have hin := World.convertOperands_ambient memory staged
          (a.conversions.keys.filter Operand.isInput) w
        rcases hconvert : World.convertOperands memory staged
            (a.conversions.keys.filter Operand.isInput) w with ⟨_ | _, w₁⟩ <;> rw [hconvert] at hin
        · exact congrArg log hin
        · have hran : (w₁.run (r.execute staged)).2.ambient.log = w.ambient.log :=
            ((h r hinner).execute staged w₁.toSession).trans (congrArg log hin)
          dsimp only
          rcases hrun : w₁.run (r.execute staged) with ⟨_ | _, w₂⟩ <;> rw [hrun] at hran
          · exact hran
          · exact (congrArg log (World.convertOperands_ambient staged memory _ w₂)).trans hran

end Inquired

namespace Dispatcher

variable {α σ : Type}

/-! ## Attempts and turns -/

/-- Builds a candidate and offers it the operands. -/
def offerAnew (d : Dispatcher α σ) (index : Nat) (k : Kernel α σ) (preferred : Option Descriptors)
    (memory : Bindings) (w : World σ) : Except Error Bool × Dispatcher α σ × World σ :=
  match Instance.build k d.attrs memory.descriptors preferred memory w with
  | (.error e, w) => (.error e, d, w)
  | (.ok built, w) => d.offer index { route := Route.of preferred, built } memory w

/-- What a candidate prefers: it is known already, or the candidate is asked. -/
def preference (d : Dispatcher α σ) (k : Kernel α σ) (known : Option (Option Descriptors))
    (memory : Bindings) (w : World σ) : Option Descriptors × World σ :=
  match known with
  | some preferred => (preferred, w)
  | none => w.run (k.preferred d.attrs memory.descriptors)

/-- A candidate is offered the operands by the slot on the route, or it is built anew because there
    is none. -/
theorem trySelect_cases (d : Dispatcher α σ) (index : Nat) (k : Kernel α σ) (route : Route)
    (known : Option (Option Descriptors)) (memory : Bindings) (w : World σ) :
    (∃ slot, d.slot? index = some slot ∧ slot.route = route ∧
        d.trySelect index k route known memory w = d.offer index slot memory w) ∨
      ((∀ slot, d.slot? index = some slot → slot.route ≠ route) ∧
        d.trySelect index k route known memory w =
          d.offerAnew index k (d.preference k known memory w).1 memory
            (d.preference k known memory w).2) := by
  unfold trySelect
  cases hslot : (d.slot? index).filter fun slot => slot.route = route with
  | some slot =>
    obtain ⟨hslot, hroute⟩ := Option.filter_eq_some_iff.1 hslot
    exact .inl ⟨slot, hslot, by simpa using hroute, rfl⟩
  | none =>
    refine .inr ⟨by simpa using hslot, ?_⟩
    cases known <;> rfl

theorem current?_eq_some {d : Dispatcher α σ} {memory : Bindings} {index : Nat} {slot : Slot σ}
    (h : d.current? memory = some (index, slot)) :
    d.resolved = some (memory.descriptors, index) ∧ d.slot? index = some slot := by
  unfold current? at h
  split at h
  · cases h
  · rename_i signature i hres
    split at h
    · rename_i hsig
      obtain ⟨slot', hslot, heq⟩ := Option.map_eq_some_iff.1 h
      cases heq
      exact ⟨by rw [hres, hsig], hslot⟩
    · cases h

/-- The turn of a candidate in a walk. If its predicates let the operands pass, it is asked what it
    prefers and is offered the operands on that route. -/
def turn (d : Dispatcher α σ) (index : Nat) (k : Kernel α σ) (memory : Bindings) (w : World σ) :
    Route × Except Error Bool × Dispatcher α σ × World σ :=
  match d.passes k memory w with
  | (false, w) => (none, .ok false, d, w)
  | (true, w) =>
    let (preferred, w) := w.run (k.preferred d.attrs memory.descriptors)
    (Route.of preferred, d.trySelect index k (Route.of preferred) (some preferred) memory w)

theorem walk_cons (memory : Bindings) (k : Kernel α σ) (i : Nat) (rest : List (Kernel α σ × Nat))
    (d : Dispatcher α σ) (w : World σ) :
    walk memory ((k, i) :: rest) d w =
      goOn memory ⟨i, (d.turn i k memory w).1⟩ rest (d.turn i k memory w).2 := by
  rw [walk, turn]
  rcases d.passes k memory w with ⟨_ | _, w₁⟩ <;> rfl

/-- Let turns lead from `P` to `Q`, which is no weaker. A walk comes to no candidate at all, or it
    ends in `Q` without a choice, or else by a turn whose candidate takes the operands. -/
theorem walk_ends {P Q : Dispatcher α σ → World σ → Prop} (hweaker : ∀ d w, Q d w → P d w)
    {memory : Bindings} {rest : List (Kernel α σ × Nat)}
    (hturn : ∀ e ∈ rest, ∀ d w, P d w →
      Q (d.turn e.2 e.1 memory w).2.2.1 (d.turn e.2 e.1 memory w).2.2.2)
    {d : Dispatcher α σ} {w : World σ} (h : P d w) :
    (rest = [] ∧ walk memory rest d w = (.ok false, d, w)) ∨
      ((walk memory rest d w).1 ≠ .ok true ∧
        Q (walk memory rest d w).2.1 (walk memory rest d w).2.2) ∨
      ∃ e ∈ rest, ∃ d₁ w₁ route d₂ w₂, P d₁ w₁ ∧
        d₁.turn e.2 e.1 memory w₁ = (route, .ok true, d₂, w₂) ∧
        walk memory rest d w = (.ok true,
          { d₂ with
            decisions := d₂.decisions.store memory.descriptors ⟨e.2, route⟩
            resolved := some (memory.descriptors, e.2) }, w₂) := by
  induction rest generalizing d w with
  | nil => exact .inl ⟨rfl, rfl⟩
  | cons e rest ih =>
    have hafter := hturn e List.mem_cons_self d w h
    rw [walk_cons]
    rcases hends : d.turn e.2 e.1 memory w with ⟨route, _ | _ | _, d₂, w₂⟩ <;> rw [hends] at hafter
    · exact .inr (.inl ⟨by simp [goOn], hafter⟩)
    · rcases ih (fun e he => hturn e (List.mem_cons_of_mem _ he)) (hweaker d₂ w₂ hafter) with
        ⟨-, hwalk⟩ | hwalk | ⟨e', he', hwalk⟩
      · exact .inr (.inl ⟨by simp [goOn, hwalk], by simpa only [goOn, hwalk] using hafter⟩)
      · exact .inr (.inl hwalk)
      · exact .inr (.inr ⟨e', List.mem_cons_of_mem _ he', hwalk⟩)
    · exact .inr (.inr ⟨e, List.mem_cons_self, d, w, route, d₂, w₂, h, hends, rfl⟩)

/-! ## Dispatchers over kernels under inquiry -/

open Inquired

/-- The dispatcher is over the candidates under inquiry, and what has been built of them enters
    nothing. -/
structure Inquires (ks : List (Kernel α σ)) (attrs : α) (d : Dispatcher α (Inquired σ)) : Prop where
  attrs_eq : d.attrs = attrs
  candidates_eq : d.candidates = kernels ks
  length_slots : d.slots.length = ks.length
  silent : ∀ i slot, d.slot? i = some slot → slot.built.Has Runner.Silent

variable {ks : List (Kernel α σ)} {attrs : α} {d : Dispatcher α (Inquired σ)}

theorem inquires_ofCandidates (ks : List (Kernel α σ)) (attrs : α) (constraints : Constraints)
    (context : Context) :
    Inquires ks attrs (ofCandidates (kernels ks) attrs constraints context) := by
  refine ⟨rfl, rfl, by simp [ofCandidates], fun i slot hslot => ?_⟩
  rw [slot?_ofCandidates] at hslot
  cases hslot

theorem Inquires.withDecisions (h : Inquires ks attrs d) (decisions : Recency Signature Choice)
    (resolved : Option (Signature × Nat)) : Inquires ks attrs { d with decisions, resolved } :=
  ⟨h.attrs_eq, h.candidates_eq, h.length_slots, h.silent⟩

theorem Inquires.setSlot (h : Inquires ks attrs d) (i : Nat) {slot : Slot (Inquired σ)}
    (hslot : slot.built.Has Runner.Silent) : Inquires ks attrs (d.setSlot i slot) := by
  refine ⟨h.attrs_eq, h.candidates_eq, List.length_set.trans h.length_slots,
    fun j slot' hslot' => ?_⟩
  rw [slot?_setSlot] at hslot'
  split at hslot'
  · cases hslot'
    exact hslot
  · exact h.silent j slot' hslot'

theorem Inquires.slot?_setSlot_self (h : Inquires ks attrs d) {i : Nat} {k : Kernel α σ}
    (hk : ks[i]? = some k) (slot : Slot (Inquired σ)) :
    (d.setSlot i slot).slot? i = some slot := by
  have hlt : i < d.slots.length := by
    rw [h.length_slots]
    exact (List.getElem?_eq_some_iff.1 hk).1
  rw [slot?_setSlot, if_pos ⟨rfl, hlt⟩]

/-- What has been built is of one of the candidates. -/
theorem Inquires.exists_of_slot? (h : Inquires ks attrs d) {i : Nat} {slot : Slot (Inquired σ)}
    (hslot : d.slot? i = some slot) : ∃ k, ks[i]? = some k := by
  have hlt : i < ks.length := by
    rw [← h.length_slots]
    exact (List.getElem?_eq_some_iff.1 (Option.join_eq_some_iff.1 hslot)).1
  exact ⟨ks[i], List.getElem?_eq_getElem hlt⟩

/-- A candidate that the dispatcher looks up is one of the given ones, under inquiry. -/
theorem Inquires.getElem? (h : Inquires ks attrs d) {i : Nat} {k : Kernel α (Inquired σ)}
    (hk : d.candidates[i]? = some k) : ∃ k', ks[i]? = some k' ∧ k = kernel i k' := by
  rw [h.candidates_eq] at hk
  exact kernels_getElem?_eq_some_iff.1 hk

/-- So is every candidate that a walk comes to. -/
theorem Inquires.of_mem_zipIdx (h : Inquires ks attrs d) {e : Kernel α (Inquired σ) × Nat}
    (he : e ∈ d.candidates.zipIdx) : ∃ k, ks[e.2]? = some k ∧ e.1 = kernel e.2 k :=
  h.getElem? (List.mem_zipIdx_iff_getElem?.1 he)

/-- The predicates of a candidate, one at least, are all that is entered when it is asked whether
    the operands may pass. -/
theorem passes_log (d : Dispatcher α (Inquired σ)) (i : Nat) (k : Kernel α σ) (memory : Bindings)
    (w : World (Inquired σ)) :
    ∃ q new, (d.passes (kernel i k) memory w).2.ambient.log = new ++ q :: w.ambient.log ∧
      q.isPredicate = true ∧ ∀ q ∈ new, q.isPredicate = true := by
  have hsupports := supports_log i k d.attrs memory.descriptors d.constraints w
  unfold passes
  rcases hs : w.run ((kernel i k).supports d.attrs memory.descriptors d.constraints) with
    ⟨_ | _, w₁⟩ <;> rw [hs] at hsupports
  · exact ⟨.supports i, [], hsupports, rfl, by simp⟩
  · refine ⟨.supports i, [.accepts i], ?_, rfl, by simp [Inquiry.isPredicate]⟩
    exact (acceptsShapes_log i k memory w₁).trans (by rw [hsupports]; rfl)

end Dispatcher

end KernelDispatch
