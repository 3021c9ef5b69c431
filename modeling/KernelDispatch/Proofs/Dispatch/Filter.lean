import KernelDispatch.Proofs.Dispatch.Inquiries
import KernelDispatch.Proofs.Dispatch.Negotiation
import KernelDispatch.Proofs.Registration
import KernelDispatch.Scripted

/-
  Which kernels a selection keeps, and which ones it asks. Whatever the kernels answer and whatever
  that does to the session, the candidates are a front of those kernels of the prescribed name that
  say yes when all of that name are asked in turn: the front that ends with the first shape-agnostic
  one (`supporting_eq_upTo`). The same walk over the answers says who is asked at all
  (`Inquired.supporting_log`). A factory applies this under the name that is in force
  (`selection_keeps_supporting_front`).
-/

namespace KernelDispatch

/-! ## Fronts -/

/-- The front of a list that ends with the first element of a kind; all of it if there is none. -/
def upTo {β : Type} (ends : β → Bool) : List β → List β
  | [] => []
  | x :: xs => if ends x then [x] else x :: upTo ends xs

theorem upTo_eq_nil_iff {β : Type} (ends : β → Bool) (xs : List β) :
    upTo ends xs = [] ↔ xs = [] := by
  cases xs with
  | nil => exact Iff.rfl
  | cons x xs =>
    unfold upTo
    split <;> simp

theorem upTo_singleton {β : Type} (ends : β → Bool) (x : β) : upTo ends [x] = [x] := by
  unfold upTo
  split <;> rfl

variable {α σ : Type}

/-! ## Polls -/

/-- A kernel that is asked whether it supports a configuration, its place among the kernels of its
    operation, and what it says. -/
structure Poll (α σ : Type) where
  kernel : Kernel α σ
  place : Nat
  answer : Bool

/-- Whether nothing behind the kernel is considered: it is a shape-agnostic candidate. -/
def Poll.ends (p : Poll α σ) : Bool := p.answer && p.kernel.shapeAgnostic

/-- The kernels that a name leaves, with their places. -/
def named (priority : Option String) (es : List (Kernel α σ × Nat)) : List (Kernel α σ × Nat) :=
  es.filter fun e => priority.all (· == e.1.name)

theorem named_cons_of_skipped {priority : Option String} {e : Kernel α σ × Nat}
    (h : priority.any (· != e.1.name) = true) (es : List (Kernel α σ × Nat)) :
    named priority (e :: es) = named priority es := by
  apply List.filter_cons_of_neg
  simpa [Option.all_eq_true, Option.any_eq_true] using h

theorem named_cons_of_asked {priority : Option String} {e : Kernel α σ × Nat}
    (h : priority.any (· != e.1.name) = false) (es : List (Kernel α σ × Nat)) :
    named priority (e :: es) = e :: named priority es := by
  apply List.filter_cons_of_pos
  simpa [Option.all_eq_true, Option.any_eq_false] using h

variable (attrs : α) (ds : Descriptors) (c : Constraints)

/-- All of the kernels are asked in turn, each in the session that those before it have left. -/
def polls : List (Kernel α σ × Nat) → Session σ → List (Poll α σ)
  | [], _ => []
  | (k, i) :: es, s =>
    let (answer, s) := k.supports attrs ds c s
    ⟨k, i, answer⟩ :: polls es s

/-- The kernels that say yes. -/
def supporters (es : List (Kernel α σ × Nat)) (s : Session σ) : List (Kernel α σ) :=
  ((polls attrs ds c es s).filter Poll.answer).map Poll.kernel

section Steps

variable {attrs ds c} {e : Kernel α σ × Nat} {es : List (Kernel α σ × Nat)} {s t : Session σ}

theorem polls_cons {answer : Bool} (h : e.1.supports attrs ds c s = (answer, t)) :
    polls attrs ds c (e :: es) s = ⟨e.1, e.2, answer⟩ :: polls attrs ds c es t := by
  rw [polls, h]

theorem supporters_of_no (h : e.1.supports attrs ds c s = (false, t)) :
    supporters attrs ds c (e :: es) s = supporters attrs ds c es t := by
  unfold supporters
  rw [polls_cons h]
  rfl

theorem supporters_of_yes (h : e.1.supports attrs ds c s = (true, t)) :
    supporters attrs ds c (e :: es) s = e.1 :: supporters attrs ds c es t := by
  unfold supporters
  rw [polls_cons h]
  rfl

end Steps

theorem map_kernel_polls (es : List (Kernel α σ × Nat)) (s : Session σ) :
    (polls attrs ds c es s).map Poll.kernel = es.map Prod.fst := by
  induction es generalizing s with
  | nil => rfl
  | cons e es ih => exact congrArg (e.1 :: ·) (ih _)

/-- Kernels whose answers do not depend on the session can be asked in any. -/
theorem polls_eq_map (answers : Kernel α σ → Bool) {es : List (Kernel α σ × Nat)}
    (h : ∀ e ∈ es, ∀ s, (e.1.supports attrs ds c s).1 = answers e.1) (s : Session σ) :
    polls attrs ds c es s = es.map fun e => ⟨e.1, e.2, answers e.1⟩ := by
  induction es generalizing s with
  | nil => rfl
  | cons e es ih =>
    obtain ⟨hfirst, hrest⟩ := List.forall_mem_cons.1 h
    rw [polls_cons rfl, hfirst, ih hrest, List.map_cons]

theorem supporters_eq_filter (answers : Kernel α σ → Bool) {es : List (Kernel α σ × Nat)}
    (h : ∀ e ∈ es, ∀ s, (e.1.supports attrs ds c s).1 = answers e.1) (s : Session σ) :
    supporters attrs ds c es s = (es.map Prod.fst).filter answers := by
  rw [supporters, polls_eq_map attrs ds c answers h, List.filter_map, List.map_map,
    List.filter_map]
  rfl

theorem sublist_supporters (es : List (Kernel α σ × Nat)) (s : Session σ) :
    (supporters attrs ds c es s).Sublist (es.map Prod.fst) := by
  rw [← map_kernel_polls attrs ds c es s]
  exact List.filter_sublist.map _

theorem map_fst_named (priority : Option String) (ks : List (Kernel α σ)) :
    (named priority ks.zipIdx).map Prod.fst = ks.filter fun k => priority.all (· == k.name) := by
  have hfilter := (List.filter_map (f := Prod.fst) (p := fun k : Kernel α σ =>
    priority.all (· == k.name)) (l := ks.zipIdx)).symm
  rw [List.zipIdx_map_fst] at hfilter
  exact hfilter

/-- If no two kernels share a name, at most one supports a configuration under a given one. -/
theorem supporters_of_name {ks : List (Kernel α σ)} (hnames : (ks.map Kernel.name).Nodup)
    {n : String} {s : Session σ}
    (h : supporters attrs ds c (named (some n) ks.zipIdx) s ≠ []) :
    ∃ k ∈ ks, k.name = n ∧ supporters attrs ds c (named (some n) ks.zipIdx) s = [k] := by
  have hsub := sublist_supporters attrs ds c (named (some n) ks.zipIdx) s
  rw [map_fst_named] at hsub
  have hmem : ∀ k ∈ supporters attrs ds c (named (some n) ks.zipIdx) s, k ∈ ks ∧ k.name = n := by
    intro k hk
    obtain ⟨hks, hname⟩ := List.mem_filter.1 (hsub.subset hk)
    exact ⟨hks, (beq_iff_eq.1 hname).symm⟩
  have hnodup := hnames.sublist ((hsub.trans List.filter_sublist).map Kernel.name)
  rcases hfound : supporters attrs ds c (named (some n) ks.zipIdx) s with _ | ⟨k, _ | ⟨k', rest⟩⟩
  · exact absurd hfound h
  · rw [hfound] at hmem
    obtain ⟨hks, hname⟩ := hmem k (by simp)
    exact ⟨k, hks, hname, rfl⟩
  · rw [hfound] at hmem hnodup
    have hsame : k.name = k'.name := (hmem k (by simp)).2.trans (hmem k' (by simp)).2.symm
    simp [hsame] at hnodup

/-! ## Selecting -/

section Steps

variable {attrs ds c} {priority : Option String} {k : Kernel α σ} {ks : List (Kernel α σ)}
  {s t : Session σ}

theorem supporting_of_skipped (h : priority.any (· != k.name) = true) :
    supporting attrs ds c priority (k :: ks) s = supporting attrs ds c priority ks s := by
  rw [supporting, if_pos h]

theorem supporting_of_no (h : priority.any (· != k.name) = false)
    (hno : k.supports attrs ds c s = (false, t)) :
    supporting attrs ds c priority (k :: ks) s = supporting attrs ds c priority ks t := by
  rw [supporting, if_neg (by simp [h]), hno]

theorem supporting_of_yes (h : priority.any (· != k.name) = false)
    (hyes : k.supports attrs ds c s = (true, t)) :
    supporting attrs ds c priority (k :: ks) s =
      if k.shapeAgnostic then ([k], t)
      else (k :: (supporting attrs ds c priority ks t).1,
        (supporting attrs ds c priority ks t).2) := by
  rw [supporting, if_neg (by simp [h]), hyes]

end Steps

variable (priority : Option String)

/-- The candidates are the supporters of the name, up to the first shape-agnostic one. -/
theorem supporting_eq_upTo (ks : List (Kernel α σ)) (n : Nat) (s : Session σ) :
    (supporting attrs ds c priority ks s).1 =
      upTo Kernel.shapeAgnostic (supporters attrs ds c (named priority (ks.zipIdx n)) s) := by
  induction ks generalizing n s with
  | nil => rfl
  | cons k ks ih =>
    rw [List.zipIdx_cons]
    cases hname : priority.any (· != k.name) with
    | true => rw [supporting_of_skipped hname, named_cons_of_skipped hname, ih (n + 1)]
    | false =>
      rw [named_cons_of_asked hname]
      rcases hs : k.supports attrs ds c s with ⟨_ | _, t⟩
      · rw [supporting_of_no hname hs, supporters_of_no hs, ih (n + 1)]
      · rw [supporting_of_yes hname hs, supporters_of_yes hs, upTo, ← ih (n + 1)]
        split <;> rfl

namespace Inquired

theorem kernels_eq_map (ks : List (Kernel α σ)) :
    kernels ks = ks.zipIdx.map fun e => kernel e.2 e.1 := List.mapIdx_eq_zipIdx_map

theorem kernel_shapeAgnostic (i : Nat) (k : Kernel α σ) :
    (kernel i k).shapeAgnostic = k.shapeAgnostic := rfl

theorem supports_kernel {attrs : α} {ds : Descriptors} {c : Constraints} {k : Kernel α σ}
    {t : Session (Inquired σ)} {answer : Bool} {s : Session σ}
    (h : k.supports attrs ds c (view t) = (answer, s)) (i : Nat) :
    (kernel i k).supports attrs ds c t =
      (answer, ⟨s.store, ⟨s.ambient, .supports i :: t.ambient.log⟩⟩) := by
  have hasked : (kernel i k).supports attrs ds c t =
      ((k.supports attrs ds c (view t)).1, ⟨(k.supports attrs ds c (view t)).2.store,
        ⟨(k.supports attrs ds c (view t)).2.ambient, .supports i :: t.ambient.log⟩⟩) := rfl
  rw [hasked, h]

/-- A selection does under inquiry what it does without. -/
theorem view_supporting (es : List (Kernel α σ × Nat)) (t : Session (Inquired σ)) :
    view (supporting attrs ds c priority (es.map fun e => kernel e.2 e.1) t).2 =
      (supporting attrs ds c priority (es.map Prod.fst) (view t)).2 := by
  induction es generalizing t with
  | nil => rfl
  | cons e es ih =>
    rw [List.map_cons, List.map_cons]
    cases hname : priority.any (· != e.1.name) with
    | true =>
      rw [supporting_of_skipped hname, supporting_of_skipped (k := kernel e.2 e.1) hname, ih]
    | false =>
      rcases hs : e.1.supports attrs ds c (view t) with ⟨_ | _, s⟩
      · rw [supporting_of_no hname hs,
          supporting_of_no (k := kernel e.2 e.1) hname (supports_kernel hs e.2), ih]
        rfl
      · rw [supporting_of_yes hname hs,
          supporting_of_yes (k := kernel e.2 e.1) hname (supports_kernel hs e.2),
          kernel_shapeAgnostic]
        split
        · rfl
        · exact ih _

/-- The kernels of the name are asked, once each and in order, up to the first candidate that is
    shape-agnostic. -/
theorem supporting_log (es : List (Kernel α σ × Nat)) (t : Session (Inquired σ)) :
    (supporting attrs ds c priority (es.map fun e => kernel e.2 e.1) t).2.ambient.log =
      ((upTo Poll.ends (polls attrs ds c (named priority es) (view t))).map fun p =>
        Inquiry.supports p.place).reverse ++ t.ambient.log := by
  induction es generalizing t with
  | nil => rfl
  | cons e es ih =>
    rw [List.map_cons]
    cases hname : priority.any (· != e.1.name) with
    | true =>
      rw [supporting_of_skipped (k := kernel e.2 e.1) hname, named_cons_of_skipped hname, ih]
    | false =>
      rw [named_cons_of_asked hname]
      rcases hs : e.1.supports attrs ds c (view t) with ⟨_ | _, s⟩
      · rw [supporting_of_no (k := kernel e.2 e.1) hname (supports_kernel hs e.2), ih,
          polls_cons hs]
        simp [upTo, Poll.ends, view]
      · rw [supporting_of_yes (k := kernel e.2 e.1) hname (supports_kernel hs e.2), polls_cons hs,
          kernel_shapeAgnostic, upTo]
        cases hagnostic : e.1.shapeAgnostic with
        | true => simp [Poll.ends, hagnostic]
        | false =>
          simp only [Bool.false_eq_true, if_false, Poll.ends, hagnostic, Bool.and_false, ih]
          simp [view]

end Inquired

/-! ## The candidates -/

variable [Operation α] {ks : List (Kernel α σ)} {s : Session σ}

theorem candidates_snd :
    (candidates ks attrs ds c priority s).2 = (supporting attrs ds c priority ks s).2 := by
  unfold candidates
  rcases supporting attrs ds c priority ks s with ⟨_ | ⟨k, found⟩, t⟩ <;> rfl

theorem candidates_fst :
    (candidates ks attrs ds c priority s).1 =
      if supporters attrs ds c (named priority ks.zipIdx) s = [] then
        .error (.noCandidate (Operation.key α) priority ds)
      else .ok (upTo Kernel.shapeAgnostic
        (supporters attrs ds c (named priority ks.zipIdx) s)) := by
  have hfound := supporting_eq_upTo attrs ds c priority ks 0 s
  split
  · rename_i hnone
    rw [hnone] at hfound
    unfold candidates
    rcases hs : supporting attrs ds c priority ks s with ⟨found, t⟩
    rw [hs] at hfound
    obtain rfl : found = [] := hfound
    rfl
  · rename_i hsome
    rw [← hfound]
    unfold candidates
    rcases hs : supporting attrs ds c priority ks s with ⟨_ | ⟨k, found⟩, t⟩
    · rw [hs] at hfound
      exact absurd ((upTo_eq_nil_iff _ _).1 hfound.symm) hsome
    · rfl

theorem select_eq_candidates (context : Context) (given : Option String) :
    Factory.select ks attrs context ds c given s =
      let r := candidates ks attrs ds c (Factory.priorityIn α context given) s
      (r.1.map (Factory.mk attrs context c), r.2) := by
  unfold Factory.select
  rcases candidates ks attrs ds c (Factory.priorityIn α context given) s with ⟨_ | found, t⟩ <;> rfl

/-- The name in force is the given one, or else one that is prescribed for the operation and not
    empty. -/
theorem priorityIn_eq_some_iff (context : Context) (given : Option String) (n : String) :
    Factory.priorityIn α context given = some n ↔
      given = some n ∨ given = none ∧ n ≠ "" ∧
        context.overrides.policies.get? (Operation.key α) = some ⟨n⟩ := by
  unfold Factory.priorityIn Overrides.priorityFor
  cases given with
  | some m => simp
  | none =>
    rw [Option.none_or]
    cases context.overrides.policies.get? (Operation.key α) with
    | none => simp
    | some p =>
      obtain ⟨m⟩ := p
      by_cases hm : m = ""
      · subst hm
        simp [eq_comm]
      · simp only [hm, if_false, Option.some.injEq, reduceCtorEq, false_or, true_and,
          Policy.mk.injEq]
        constructor
        · rintro rfl
          exact ⟨hm, rfl⟩
        · exact fun h => h.2

/-- Let a catalogue have any registrations, and take the kernels of one of its operations. When all
    of those that a given name leaves are asked in turn whether they support a configuration, some
    say yes; if the answers depend on the configuration alone, these are the supporting kernels of
    that name. The candidates are these up to the first shape-agnostic one, and that there are none
    is reported exactly if nobody says yes. Only those of the name are asked, once each and in
    order, up to the first shape-agnostic one that says yes. A factory selects under the name that
    it is given, or else under one that the context prescribes for the operation and that is not
    empty. It always has candidates, and under a name it has one. -/
theorem selection_keeps_supporting_front {ι : Type} [Operations ι]
    (calls : List (Registration ι)) (i : ι) (kernelOf : Operations.Entry i → Kernel α σ)
    (hname : ∀ e, (kernelOf e).name = Operations.name e) (attrs : α) (ds : Descriptors)
    (c : Constraints) :
    let ks := ((Catalogue.Log.after {} calls).catalogue.entries i).map kernelOf
    (∀ (priority : Option String) (s : Session σ),
      let kept := supporters attrs ds c (named priority ks.zipIdx) s
      (∀ answers : Kernel α σ → Bool, (∀ k ∈ ks, ∀ t, (k.supports attrs ds c t).1 = answers k) →
        (polls attrs ds c (named priority ks.zipIdx) s = (named priority ks.zipIdx).map fun e =>
          ⟨e.1, e.2, answers e.1⟩) ∧
        kept = ks.filter fun k => priority.all (· == k.name) && answers k) ∧
      (candidates ks attrs ds c priority s).1 =
        (if kept = [] then .error (.noCandidate (Operation.key α) priority ds)
        else .ok (upTo Kernel.shapeAgnostic kept)) ∧
      ∀ t, Inquired.view t = s →
        let r := candidates (Inquired.kernels ks) attrs ds c priority t
        Inquired.view r.2 = (candidates ks attrs ds c priority s).2 ∧
        r.2.ambient.log =
          ((upTo Poll.ends (polls attrs ds c (named priority ks.zipIdx) s)).map fun p =>
            Inquiry.supports p.place).reverse ++ t.ambient.log) ∧
    ∀ (context : Context) (given : Option String),
      let priority := Factory.priorityIn α context given
      (∀ n, priority = some n ↔ given = some n ∨ given = none ∧ n ≠ "" ∧
        context.overrides.policies.get? (Operation.key α) = some ⟨n⟩) ∧
      ∀ s, (Factory.select ks attrs context ds c given s =
          ((candidates ks attrs ds c priority s).1.map (Factory.mk attrs context c),
            (candidates ks attrs ds c priority s).2)) ∧
        ∀ f s', Factory.select ks attrs context ds c given s = (.ok f, s') →
          f.candidates ≠ [] ∧
            ∀ n, priority = some n → ∃ k ∈ ks, k.name = n ∧ f.candidates = [k] := by
  intro ks
  have hnames : (ks.map Kernel.name).Nodup := by
    have h := (Catalogue.Log.faithful_empty.after calls).names i
    rw [List.map_map]
    exact (List.map_congr_left fun e _ => hname e) ▸ h
  refine ⟨fun priority s => ⟨fun answers hanswers => ?_, candidates_fst attrs ds c priority, ?_⟩,
    fun context given => ⟨priorityIn_eq_some_iff context given, fun s => ⟨?_, ?_⟩⟩⟩
  · have hasked : ∀ e ∈ named priority ks.zipIdx, ∀ t,
        (e.1.supports attrs ds c t).1 = answers e.1 := by
      intro e he
      exact hanswers e.1 (List.fst_mem_of_mem_zipIdx (List.mem_filter.1 he).1)
    refine ⟨polls_eq_map attrs ds c answers hasked s, ?_⟩
    show supporters attrs ds c (named priority ks.zipIdx) s = _
    rw [supporters_eq_filter attrs ds c answers hasked, map_fst_named, List.filter_filter]
    exact congrArg (ks.filter ·) (funext fun k => Bool.and_comm _ _)
  · rintro t rfl
    intro r
    rw [show r.2 = _ from candidates_snd attrs ds c priority, candidates_snd,
      Inquired.kernels_eq_map, Inquired.view_supporting, Inquired.supporting_log,
      List.zipIdx_map_fst]
    exact ⟨rfl, rfl⟩
  · exact select_eq_candidates attrs ds c context given
  · intro f s' hselect
    obtain ⟨rfl, hne, -⟩ := Factory.select_eq_ok_iff.1 hselect
    refine ⟨hne, fun n hn => ?_⟩
    have hfound := supporting_eq_upTo attrs ds c (some n) ks 0 s
    dsimp only at hne ⊢
    rw [hn, hfound] at hne ⊢
    obtain ⟨k, hk, hkname, hkept⟩ := supporters_of_name attrs ds c hnames
      fun hnone => hne ((upTo_eq_nil_iff _ _).2 hnone)
    exact ⟨k, hk, hkname, by rw [hkept, upTo_singleton]⟩

/-- Scripted kernels: a shape-agnostic one that supports nothing, a plain one, and two
    shape-agnostic ones. The second name is taken when it comes again. -/
def scriptedCalls : List (Registration ScriptedOperation) :=
  [{ name := "never", shapeAgnostic := true, supports := some [.never] }, { name := "plain" },
    { name := "plain", shapeAgnostic := true }, { name := "any", shapeAgnostic := true },
    { name := "late", shapeAgnostic := true }].map fun script =>
      ⟨.scaling, Script.kernel .single script⟩

/-- All but the first one support the configuration. That one does not end the walk, the second
    shape-agnostic one does, and the last one is a candidate by its name only. -/
theorem scripted_selection_ends_at_any :
    let ks : List (Kernel Scaling Journal) :=
      (Catalogue.Log.after {} scriptedCalls).catalogue.entries .scaling
    supporters (⟨.zero⟩ : Scaling) ∅ ∅ (named none ks.zipIdx) ⟨{}, []⟩ =
      ks.filter (fun k => k.name != "never") ∧
    (∃ found, (candidates ks (⟨.zero⟩ : Scaling) ∅ ∅ none ⟨{}, []⟩).1 = .ok found ∧
      found.map Kernel.name = ["plain", "any"]) ∧
    (candidates (Inquired.kernels ks) (⟨.zero⟩ : Scaling) ∅ ∅ none ⟨{}, ⟨[], []⟩⟩).2.ambient.log =
      [.supports 2, .supports 1, .supports 0] ∧
    ∃ f s', Factory.select ks (⟨.zero⟩ : Scaling) (.ofSettings default) ∅ ∅ (some "late") ⟨{}, []⟩ =
      (.ok f, s') ∧ f.candidates.map Kernel.name = ["late"] := by
  intro ks
  obtain ⟨hfilter, hfactory⟩ := selection_keeps_supporting_front scriptedCalls .scaling id
    (fun _ => rfl) (⟨.zero⟩ : Scaling) ∅ ∅
  rw [List.map_id] at hfilter hfactory
  obtain ⟨hkept, hfound, hlog⟩ := hfilter none ⟨{}, []⟩
  have hanswers : ∀ k ∈ ks, ∀ t, (k.supports ⟨.zero⟩ ∅ ∅ t).1 = (k.name != "never") := by
    show ∀ k ∈ [_, _, _, _], _
    simp only [List.forall_mem_cons, List.not_mem_nil, false_implies, implies_true, and_true]
    exact ⟨fun _ => rfl, fun _ => rfl, fun _ => rfl, fun _ => rfl⟩
  have hcandidates := hfound.trans (if_neg (List.cons_ne_nil _ _))
  refine ⟨(hkept _ hanswers).2, ⟨_, hcandidates, rfl⟩, (hlog ⟨{}, ⟨[], []⟩⟩ rfl).2, ?_⟩
  obtain ⟨f, s', hselect⟩ : ∃ f s', Factory.select ks (⟨.zero⟩ : Scaling) (.ofSettings default) ∅ ∅
      (some "late") ⟨{}, []⟩ = (.ok f, s') := ⟨_, _, rfl⟩
  obtain ⟨k, -, hname, hone⟩ :=
    (((hfactory (.ofSettings default) (some "late")).2 _).2 f s' hselect).2 "late" rfl
  exact ⟨f, s', hselect, by rw [hone, List.map_singleton, hname]⟩

end KernelDispatch
