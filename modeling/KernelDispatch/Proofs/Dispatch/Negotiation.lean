import KernelDispatch.Proofs.Dispatch.FirstCall
import KernelDispatch.Proofs.Dispatch.Relaid
import KernelDispatch.Proofs.Operation.Matching

/-
  Negotiation of layouts. A factory answers with one set of descriptors for each candidate: what the
  candidate would rather be given, or else what was offered. No constraint is consulted in this, so
  a set is admitted exactly where its new layouts are allowed (`Constraints.admits_iff_of_admits`).
  For kernels that want one layout for all operands, or none, a set is negotiated in one step, and
  a factory selects the candidate for it again if the constraints admit it
  (`Negotiable.select_negotiated`), and nothing if they do not (`Negotiable.select_not_admitted`).
-/

namespace KernelDispatch

/-- Where layouts are allowed that operands have, others are admitted exactly where they differ in
    an allowed layout. -/
theorem Constraints.admits_iff_of_admits {c : Constraints} {ds : Descriptors}
    (h : c.admits ds = true) (ds' : Descriptors) : c.admits ds' = true ↔
      ∀ p d, ds'.get? p = some d → ds.get? p ≠ some d → c.allows p d.layout = true := by
  rw [Descriptors.admits_iff] at h ⊢
  refine ⟨fun h' p d hd _ => h' p d hd, fun h' p d hd => ?_⟩
  by_cases hsame : ds.get? p = some d
  · exact h p d hsame
  · exact h' p d hd hsame

/-! ## Operands in a wanted layout -/

namespace Descriptors

/-- The operands in the layout that is wanted for all of them, or as they are. -/
def negotiated (ds : Descriptors) (wanted : Option Layout) : Descriptors :=
  wanted.elim ds ds.inLayout

variable (ds : Descriptors) (wanted : Option Layout)

theorem get?_negotiated (p : Operand) : (ds.negotiated wanted).get? p =
    (ds.get? p).map fun d => d.inLayout (wanted.getD d.layout) := by
  cases wanted with
  | none =>
    show ds.get? p = (ds.get? p).map fun d => d
    cases ds.get? p <;> rfl
  | some l => exact ds.get?_inLayout l p

theorem keys_negotiated : (ds.negotiated wanted).keys = ds.keys := by
  cases wanted with
  | none => rfl
  | some l => exact OrderedMap.keys_map ds fun _ d => d.inLayout l

@[simp] theorem negotiated_negotiated :
    (ds.negotiated wanted).negotiated wanted = ds.negotiated wanted := by
  refine OrderedMap.ext_get? fun p => ?_
  rw [get?_negotiated, get?_negotiated, Option.map_map]
  cases wanted <;> rfl

/-- Operands that are all in the wanted layout are left as they are. -/
theorem inLayout_of_allInLayout {ds : Descriptors} {l : Layout} (h : ds.allInLayout l = true) :
    ds.inLayout l = ds := by
  refine OrderedMap.ext_get? fun p => ?_
  rw [get?_inLayout]
  cases hd : ds.get? p with
  | none => rfl
  | some d => rw [Option.map_some, ← (allInLayout_iff ds l).1 h p d hd, Descriptor.inLayout_self]

/-- What is asked for, or else what is offered. -/
theorem getD_relaid? :
    (wanted.bind fun l => ds.relaid? fun _ _ => l).getD ds = ds.negotiated wanted := by
  cases wanted with
  | none => rfl
  | some l =>
    rw [Option.bind_some, relaid?_eq]
    split
    · rename_i hall
      exact (inLayout_of_allInLayout hall).symm
    · rfl

/-- Nothing more is asked for once the operands are in the wanted layout. -/
theorem relaid?_negotiated :
    (wanted.bind fun l => (ds.negotiated wanted).relaid? fun _ _ => l) = none := by
  cases wanted with
  | none => rfl
  | some l =>
    show (ds.inLayout l).relaid? (fun _ _ => l) = none
    rw [relaid?_eq, allInLayout_inLayout, if_pos rfl]

/-- The operands that differ after negotiation are those that were in another layout. -/
theorem contains_differingFrom_negotiated (p : Operand) :
    ((ds.negotiated wanted).differingFrom ds).contains p = true ↔
      ∃ d l, ds.get? p = some d ∧ wanted = some l ∧ d.layout ≠ l := by
  rw [OrderedMap.contains, Option.isSome_iff_exists]
  cases wanted with
  | none =>
    constructor
    · rintro ⟨t, ht⟩
      obtain ⟨ht, d, hd, hne⟩ := (get?_differingFrom_eq_some_iff _ _ _ _).1 ht
      exact absurd (Option.some.inj (hd.symm.trans ht)) hne
    · rintro ⟨d, l, -, ⟨⟩, -⟩
  | some l =>
    constructor
    · rintro ⟨t, ht⟩
      obtain ⟨d, hd, hne, -⟩ := (differingFrom_inLayout_get? ds l p t).1 ht
      exact ⟨d, l, hd, rfl, hne⟩
    · rintro ⟨d, l, hd, ⟨⟩, hne⟩
      exact ⟨_, (differingFrom_inLayout_get? ds l p _).2 ⟨d, hd, hne, rfl⟩⟩

theorem admits_negotiated_iff {c : Constraints} {ds : Descriptors} (h : c.admits ds = true)
    (wanted : Option Layout) : c.admits (ds.negotiated wanted) = true ↔
      ∀ l, wanted = some l → ∀ p d, ds.get? p = some d → d.layout ≠ l → c.allows p l = true := by
  rw [admits_iff] at h ⊢
  cases wanted with
  | none =>
    refine ⟨fun _ l hl => ?_, fun _ => h⟩
    cases hl
  | some l =>
    simp only [get?_negotiated, Option.map_eq_some_iff]
    constructor
    · rintro h' l ⟨⟩ p d hd -
      exact h' p _ ⟨d, hd, rfl⟩
    · rintro h' p _ ⟨d, hd, rfl⟩
      by_cases hl : d.layout = l
      · subst hl
        exact h p d hd
      · exact h' l rfl p d hd hl

end Descriptors

/-! ## Selecting -/

variable {α σ : Type} {attrs : α} {ks : List (Kernel α σ)}

/-- If asking leaves no trace and only the last kernel is shape-agnostic, no kernel of the
    prescribed name that supports a configuration is left out. -/
theorem supporting_eq_filter {ds : Descriptors} {c : Constraints}
    (hquiet : ∀ k ∈ ks, ∀ s, (k.supports attrs ds c s).2 = s)
    (hlast : ∀ k ∈ ks.dropLast, k.shapeAgnostic = false) (priority : Option String)
    (s : Session σ) : (supporting attrs ds c priority ks s).1 =
      ks.filter fun k => !priority.any (· != k.name) && (k.supports attrs ds c s).1 := by
  induction ks with
  | nil => rfl
  | cons first ks ih =>
    obtain ⟨hfirst, hrest⟩ := List.forall_mem_cons.1 hquiet
    have ih := ih hrest fun k hk => hlast k (by
      cases ks with
      | nil => cases hk
      | cons _ _ => exact List.mem_cons_of_mem _ hk)
    have hasked := hfirst s
    rw [supporting, List.filter_cons]
    cases priority.any (· != first.name) with
    | true => exact ih
    | false =>
      rcases hs : first.supports attrs ds c s with ⟨_ | _, s'⟩
      all_goals
        rw [hs] at hasked
        obtain rfl := hasked
      · exact ih
      · cases hagnostic : first.shapeAgnostic with
        | false => exact congrArg (first :: ·) ih
        | true =>
          -- a shape-agnostic kernel is the last one, so nothing is cut off
          cases ks with
          | nil => rfl
          | cons k' ks =>
            rw [hlast first List.mem_cons_self] at hagnostic
            cases hagnostic

theorem mem_supporting_iff {ds : Descriptors} {c : Constraints}
    (hquiet : ∀ k ∈ ks, ∀ s, (k.supports attrs ds c s).2 = s)
    (hlast : ∀ k ∈ ks.dropLast, k.shapeAgnostic = false) (priority : Option String)
    (s : Session σ) (k : Kernel α σ) : k ∈ (supporting attrs ds c priority ks s).1 ↔
      k ∈ ks ∧ (∀ name, priority = some name → k.name = name) ∧
        (k.supports attrs ds c s).1 = true := by
  have hpasses : priority.any (· != k.name) = false ↔
      ∀ name, priority = some name → k.name = name := by
    simp only [Option.any_eq_false, bne_eq_false_iff_eq]
    exact forall₂_congr fun name _ => eq_comm
  rw [supporting_eq_filter hquiet hlast, List.mem_filter, Bool.and_eq_true, Bool.not_eq_true',
    hpasses]

namespace Factory

/-- Each candidate is asked in some session, and answers with what it prefers. -/
theorem getElem?_properFrom (attrs : α) (ds : Descriptors) (ks : List (Kernel α σ))
    (s : Session σ) (n : Nat) (k : Kernel α σ) (h : ks[n]? = some k) :
    ∃ t, (properFrom attrs ds ks s).1[n]? = some ((k.preferred attrs ds t).1.getD ds) := by
  induction ks generalizing s n with
  | nil => cases h
  | cons first ks ih =>
    cases n with
    | zero =>
      cases h
      exact ⟨s, rfl⟩
    | succ n => exact ih (first.preferred attrs ds s).2 n h

theorem length_properFrom (attrs : α) (ds : Descriptors) (ks : List (Kernel α σ))
    (s : Session σ) : (properFrom attrs ds ks s).1.length = ks.length := by
  induction ks generalizing s with
  | nil => rfl
  | cons first ks ih => exact congrArg (· + 1) (ih _)

variable [Operation α] {context : Context} {ds : Descriptors} {c : Constraints}
  {priority : Option String} {s s' : Session σ} {f : Factory α σ}

theorem select_eq_ok_iff : select ks attrs context ds c priority s = (.ok f, s') ↔
    f = ⟨attrs, context, c, (supporting attrs ds c (priorityIn α context priority) ks s).1⟩ ∧
      f.candidates ≠ [] ∧ s' = (supporting attrs ds c (priorityIn α context priority) ks s).2 := by
  unfold select KernelDispatch.candidates
  rcases supporting attrs ds c (priorityIn α context priority) ks s with ⟨_ | ⟨k, found⟩, t⟩
  · constructor
    · rintro ⟨⟩
    · rintro ⟨rfl, hne, -⟩
      exact absurd rfl hne
  · constructor
    · rintro ⟨⟩
      exact ⟨rfl, List.cons_ne_nil _ _, rfl⟩
    · rintro ⟨rfl, -, rfl⟩
      rfl

theorem select_eq_error (h : (supporting attrs ds c (priorityIn α context priority) ks s).1 = []) :
    select ks attrs context ds c priority s =
      (.error (.noCandidate (Operation.key α) (priorityIn α context priority) ds),
        (supporting attrs ds c (priorityIn α context priority) ks s).2) := by
  unfold select KernelDispatch.candidates
  rcases hs : supporting attrs ds c (priorityIn α context priority) ks s with ⟨found, t⟩
  rw [hs] at h
  cases h
  rfl

/-- Under constraints that admit the offered operands, the set for a candidate is what it prefers,
    or else the offered one, and is admitted exactly where the operands that differ have a layout
    that is allowed. -/
theorem properDescriptors_admitted_iff
    (h : select ks attrs context ds c priority s = (.ok f, s')) (hadmits : c.admits ds = true)
    (t : Session σ) {n : Nat} {k : Kernel α σ} (hn : f.candidates[n]? = some k) :
    ∃ P u, (f.properDescriptors ds t).1[n]? = some P ∧ P = (k.preferred attrs ds u).1.getD ds ∧
      (f.constraints.admits P = true ↔
        ∀ p d, P.get? p = some d → ds.get? p ≠ some d → c.allows p d.layout = true) := by
  obtain ⟨rfl, -, -⟩ := select_eq_ok_iff.1 h
  obtain ⟨u, hu⟩ := getElem?_properFrom attrs ds _ t n k hn
  exact ⟨_, u, hu, rfl, Constraints.admits_iff_of_admits hadmits _⟩

end Factory

/-! ## Kernels that want one layout -/

/-- A kernel that would rather have all operands in one layout, or has no wish. It supports what the
    constraints admit only, and apart from them it supports the operands in the wanted layout if it
    supports them as they are. -/
structure Kernel.Wants (k : Kernel α σ) (attrs : α) (wanted : Option Layout) : Prop where
  preferred : ∀ ds s, (k.preferred attrs ds s).1 = wanted.bind fun l => ds.relaid? fun _ _ => l
  admits : ∀ ds c s, (k.supports attrs ds c s).1 = true → c.admits ds = true
  supports : ∀ ds c c' s s', (k.supports attrs ds c s).1 = true →
    c'.admits (ds.negotiated wanted) = true →
      (k.supports attrs (ds.negotiated wanted) c' s').1 = true

/-- It is so if the answer on support is the conjunction of an answer to the operands, which stays
    true in the wanted layout, and of that of the constraints. -/
theorem Kernel.Wants.of_fits {k : Kernel α σ} {wanted : Option Layout} {fits : Descriptors → Bool}
    (hpreferred : ∀ ds s, (k.preferred attrs ds s).1 = wanted.bind fun l => ds.relaid? fun _ _ => l)
    (hsupports : ∀ ds c s, (k.supports attrs ds c s).1 = (fits ds && c.admits ds))
    (hfits : ∀ ds, fits ds = true → fits (ds.negotiated wanted) = true) :
    k.Wants attrs wanted where
  preferred := hpreferred
  admits ds c s h := by
    rw [hsupports, Bool.and_eq_true] at h
    exact h.2
  supports ds c c' s s' h hadmits := by
    rw [hsupports, Bool.and_eq_true] at h ⊢
    exact ⟨hfits ds h.1, hadmits⟩

/-- Kernels with their wishes, by name. Asking them leaves no trace, and only the last one is
    shape-agnostic. -/
structure Negotiable (ks : List (Kernel α σ)) (attrs : α) (wanted : String → Option Layout)
    (P : String → Runner σ → Prop) : Prop where
  quiet : ∀ c, ∀ k ∈ ks, k.Quiet attrs c (P k.name)
  wants : ∀ k ∈ ks, k.Wants attrs (wanted k.name)
  last : ∀ k ∈ ks.dropLast, k.shapeAgnostic = false

namespace Negotiable

variable [Operation α] {context : Context} {ds : Descriptors} {c : Constraints}
  {priority : Option String} {s s' : Session σ} {f : Factory α σ} {k : Kernel α σ}
  {wanted : String → Option Layout} {P : String → Runner σ → Prop}
  (hks : Negotiable ks attrs wanted P)

include hks

theorem mem_candidates_iff
    (h : Factory.select ks attrs context ds c priority s = (.ok f, s')) : k ∈ f.candidates ↔
      k ∈ ks ∧ (∀ name, Factory.priorityIn α context priority = some name → k.name = name) ∧
        (k.supports attrs ds c s).1 = true := by
  obtain ⟨rfl, -, -⟩ := Factory.select_eq_ok_iff.1 h
  exact mem_supporting_iff (fun k hk => (hks.quiet c k hk).supports ds) hks.last _ s k

/-- With no name prescribed, the candidates are all kernels that support the operands, in order, and
    there has to be one. -/
theorem candidates_eq_ok_iff {found : List (Kernel α σ)} :
    candidates ks attrs ds c none s = (.ok found, s') ↔
      found = (ks.filter fun k => (k.supports attrs ds c s).1) ∧ found ≠ [] ∧ s' = s := by
  have hfound := supporting_eq_filter (fun k hk => (hks.quiet c k hk).supports ds) hks.last none s
  have hsame := supporting_snd (hks.quiet c) ds none s
  simp only [Option.any_none, Bool.not_false, Bool.true_and] at hfound
  unfold candidates
  rw [← hfound]
  rcases hs : supporting attrs ds c none ks s with ⟨_ | ⟨k, rest⟩, t⟩
  · constructor
    · rintro ⟨⟩
    · rintro ⟨rfl, hne, -⟩
      exact absurd rfl hne
  · rw [hs] at hsame
    constructor
    · rintro ⟨⟩
      exact ⟨rfl, List.cons_ne_nil _ _, hsame⟩
    · rintro ⟨rfl, -, rfl⟩
      exact congrArg (Prod.mk _) hsame

/-- With no name prescribed, every kernel that supports the operands is found. -/
theorem candidates_of_supports (hk : k ∈ ks) (h : (k.supports attrs ds c s).1 = true) :
    ∃ found, candidates ks attrs ds c none s = (.ok found, s) ∧
      found = (ks.filter fun k => (k.supports attrs ds c s).1) ∧ k ∈ found := by
  have hmem : k ∈ ks.filter fun k => (k.supports attrs ds c s).1 := List.mem_filter.2 ⟨hk, h⟩
  exact ⟨_, hks.candidates_eq_ok_iff.2 ⟨rfl, List.ne_nil_of_mem hmem, rfl⟩, rfl, hmem⟩

/-- Operands that every kernel supports that supports others leave all candidates that are found for
    the others. -/
theorem candidates_sublist {found : List (Kernel α σ)}
    (hfound : candidates ks attrs ds c none s = (.ok found, s')) {ds' : Descriptors}
    {t : Session σ} (hsupports : ∀ k ∈ ks, (k.supports attrs ds c s).1 = true →
      (k.supports attrs ds' c t).1 = true) :
    ∃ found', candidates ks attrs ds' c none t = (.ok found', t) ∧ found.Sublist found' := by
  obtain ⟨rfl, hne, -⟩ := hks.candidates_eq_ok_iff.1 hfound
  have hboth : (ks.filter fun k => (k.supports attrs ds c s).1) =
      (ks.filter fun k => (k.supports attrs ds' c t).1).filter
        fun k => (k.supports attrs ds c s).1 := by
    rw [List.filter_filter]
    refine List.filter_congr fun k hk => ?_
    rw [Bool.eq_iff_iff, Bool.and_eq_true]
    exact ⟨fun h => ⟨h, hsupports k hk h⟩, And.left⟩
  rw [hboth] at hne ⊢
  refine ⟨_, hks.candidates_eq_ok_iff.2 ⟨rfl, fun hnil => hne ?_, rfl⟩, List.filter_sublist⟩
  rw [hnil, List.filter_nil]

/-- A candidate is answered with the operands in the layout that it wants. -/
theorem getElem?_properDescriptors
    (h : Factory.select ks attrs context ds c priority s = (.ok f, s')) {n : Nat}
    (hn : f.candidates[n]? = some k) (offered : Descriptors) (t : Session σ) :
    (f.properDescriptors offered t).1[n]? = some (offered.negotiated (wanted k.name)) := by
  have hk := ((hks.mem_candidates_iff h).1 (List.mem_of_getElem? hn)).1
  obtain ⟨rfl, -, -⟩ := Factory.select_eq_ok_iff.1 h
  obtain ⟨u, hu⟩ := Factory.getElem?_properFrom attrs offered _ t n k hn
  rw [(hks.wants k hk).preferred, Descriptors.getD_relaid?] at hu
  exact hu

/-- A factory for the set that was negotiated for a candidate selects the candidate again, under any
    constraints that admit the set. -/
theorem select_negotiated (h : Factory.select ks attrs context ds c priority s = (.ok f, s'))
    (hk : k ∈ f.candidates) {c' : Constraints}
    (hadmits : c'.admits (ds.negotiated (wanted k.name)) = true) (t : Session σ) :
    ∃ f', Factory.select ks attrs context (ds.negotiated (wanted k.name)) c' priority t =
      (.ok f', t) ∧ k ∈ f'.candidates := by
  obtain ⟨hmem, hname, hsupports⟩ := (hks.mem_candidates_iff h).1 hk
  have hfound : k ∈ (supporting attrs (ds.negotiated (wanted k.name)) c'
      (Factory.priorityIn α context priority) ks t).1 :=
    (mem_supporting_iff (fun k hk => (hks.quiet c' k hk).supports _) hks.last _ t k).2
      ⟨hmem, hname, (hks.wants k hmem).supports ds c c' s t hsupports hadmits⟩
  have hsame := supporting_snd (hks.quiet c') (ds.negotiated (wanted k.name))
    (Factory.priorityIn α context priority) t
  exact ⟨_, Factory.select_eq_ok_iff.2 ⟨rfl, List.ne_nil_of_mem hfound, hsame.symm⟩, hfound⟩

/-- No candidate is found for operands that the constraints do not admit. -/
theorem select_not_admitted (h : c.admits ds = false) (t : Session σ) :
    Factory.select ks attrs context ds c priority t =
      (.error (.noCandidate (Operation.key α) (Factory.priorityIn α context priority) ds), t) := by
  have hnone : (supporting attrs ds c (Factory.priorityIn α context priority) ks t).1 = [] := by
    refine List.eq_nil_iff_forall_not_mem.2 fun k hk => ?_
    obtain ⟨hmem, -, hsupports⟩ :=
      (mem_supporting_iff (fun k hk => (hks.quiet c k hk).supports ds) hks.last _ t k).1 hk
    rw [(hks.wants k hmem).admits ds c t hsupports] at h
    cases h
  rw [Factory.select_eq_error hnone, supporting_snd (hks.quiet c)]

end Negotiable

end KernelDispatch
