import KernelDispatch.Catalogue
import Mathlib.Data.List.Nodup
import Mathlib.Data.String.Basic

/-
  What a catalogue has after any registrations. It is a log of those that it accepted: each
  operation has its own in the order of the calls, a name is refused exactly if it has been accepted
  for the operation before, and a refusal leaves no trace, although the list of an operation is
  opened before the names in it are looked at. The keys are those of the operations that have
  kernels (`log_is_faithful`).
-/

namespace KernelDispatch

/-- An operation and a kernel that is to be registered for it. -/
abbrev Registration (ι : Type) [Operations ι] := (i : ι) × Operations.Entry i

namespace Catalogue

variable {ι : Type} [Operations ι]

/-! ## One registration -/

theorem ensure_eq_self {c : Catalogue ι} {i : ι} (h : i ∈ c.opened) : c.ensure i = c := by
  unfold ensure
  rw [if_pos h]

theorem mem_opened_ensure (c : Catalogue ι) (i j : ι) :
    j ∈ (c.ensure i).opened ↔ j = i ∨ j ∈ c.opened := by
  unfold ensure
  dsimp only
  split
  · rename_i hi
    exact ⟨.inr, fun h => h.elim (fun heq => heq ▸ hi) id⟩
  · exact List.mem_cons

theorem nodup_opened_ensure {c : Catalogue ι} (h : c.opened.Nodup) (i : ι) :
    (c.ensure i).opened.Nodup := by
  unfold ensure
  dsimp only
  split
  · exact h
  · rename_i hi
    exact List.nodup_cons.2 ⟨hi, h⟩

/-- The kernel of a registration, if it is for the operation. -/
def kernelFor? (i : ι) (r : Registration ι) : Option (Operations.Entry i) :=
  if h : r.1 = i then some (h ▸ r.2) else none

/-- The kernels for an operation among some registrations, in order. -/
def kernelsFor (i : ι) (rs : List (Registration ι)) : List (Operations.Entry i) :=
  rs.filterMap (kernelFor? i)

theorem kernelFor?_eq_some_iff {i : ι} {r : Registration ι} {k : Operations.Entry i} :
    kernelFor? i r = some k ↔ r = ⟨i, k⟩ := by
  obtain ⟨j, k'⟩ := r
  unfold kernelFor?
  by_cases h : j = i
  · subst h
    rw [dif_pos rfl, Option.some_inj]
    exact ⟨fun hk => hk ▸ rfl, fun hk => eq_of_heq (Sigma.mk.inj hk).2⟩
  · rw [dif_neg h]
    exact ⟨fun hnone => (nomatch hnone), fun hk => absurd (congrArg Sigma.fst hk) h⟩

theorem mem_kernelsFor_iff {i : ι} {rs : List (Registration ι)} {k : Operations.Entry i} :
    k ∈ kernelsFor i rs ↔ ⟨i, k⟩ ∈ rs := by
  simp only [kernelsFor, List.mem_filterMap, kernelFor?_eq_some_iff, exists_eq_right]

theorem kernelsFor_self (r : Registration ι) : kernelsFor r.1 [r] = [r.2] := by
  simp [kernelsFor, kernelFor?]

theorem kernelsFor_other {i : ι} {r : Registration ι} (h : r.1 ≠ i) : kernelsFor i [r] = [] := by
  simp [kernelsFor, kernelFor?, h]

theorem entries_append (c : Catalogue ι) (r : Registration ι) (j : ι) :
    (c.append r.1 r.2).entries j = c.entries j ++ kernelsFor j [r] := by
  unfold append kernelsFor kernelFor?
  dsimp only
  by_cases h : r.1 = j
  · simp [h]
  · simp [h]

theorem register_of_mem {c : Catalogue ι} {i : ι} {k : Operations.Entry i}
    (h : Operations.name k ∈ c.names i) :
    c.register i k = (.error (.duplicate (Operations.key i) (Operations.name k)), c.ensure i) :=
  if_pos h

theorem register_of_not_mem {c : Catalogue ι} {i : ι} {k : Operations.Entry i}
    (h : Operations.name k ∉ c.names i) : c.register i k = (.ok (), (c.ensure i).append i k) :=
  if_neg h

/-! ## The log -/

/-- A catalogue and the registrations that it has accepted, in order. -/
structure Log (ι : Type) [Operations ι] where
  catalogue : Catalogue ι := ∅
  accepted : List (Registration ι) := []

namespace Log

/-- The log after one more registration. -/
def perform (l : Log ι) (r : Registration ι) : Log ι :=
  match l.catalogue.register r.1 r.2 with
  | (.ok (), catalogue) => { catalogue, accepted := l.accepted ++ [r] }
  | (.error _, catalogue) => { l with catalogue }

/-- The log after some registrations, whether they are refused or not. -/
def after (l : Log ι) (rs : List (Registration ι)) : Log ι := rs.foldl perform l

/-- The catalogue has what it accepted, each name once, and an operation has a list only if that
    is not empty. -/
structure Faithful (l : Log ι) : Prop where
  entries : ∀ i, l.catalogue.entries i = kernelsFor i l.accepted
  names : ∀ i, (l.catalogue.names i).Nodup
  opened : ∀ i, i ∈ l.catalogue.opened ↔ l.catalogue.entries i ≠ []
  nodup : l.catalogue.opened.Nodup

theorem faithful_empty : ({} : Log ι).Faithful :=
  ⟨fun _ => rfl, fun _ => List.nodup_nil, fun _ => by simp [EmptyCollection.emptyCollection],
    List.nodup_nil⟩

theorem perform_of_not_mem {l : Log ι} {r : Registration ι}
    (h : Operations.name r.2 ∉ l.catalogue.names r.1) : l.perform r =
      ⟨(l.catalogue.ensure r.1).append r.1 r.2, l.accepted ++ [r]⟩ := by
  rw [perform, register_of_not_mem h]

namespace Faithful

variable {l : Log ι}

/-- A refusal leaves the catalogue as it is: the operation of a name that is taken has a list. -/
theorem register_of_mem (h : l.Faithful) {i : ι} {k : Operations.Entry i}
    (hk : Operations.name k ∈ l.catalogue.names i) : l.catalogue.register i k =
      (.error (.duplicate (Operations.key i) (Operations.name k)), l.catalogue) := by
  have hopened : i ∈ l.catalogue.opened := by
    refine (h.opened i).2 fun hnil => ?_
    rw [Catalogue.names, hnil] at hk
    cases hk
  rw [Catalogue.register_of_mem hk, ensure_eq_self hopened]

theorem perform_of_mem (h : l.Faithful) {r : Registration ι}
    (hr : Operations.name r.2 ∈ l.catalogue.names r.1) : l.perform r = l := by
  rw [Log.perform, h.register_of_mem hr]

/-- A name is taken exactly if a kernel of that name was accepted for the operation. -/
theorem mem_names_iff (h : l.Faithful) {i : ι} {name : String} : name ∈ l.catalogue.names i ↔
    ∃ k : Operations.Entry i, ⟨i, k⟩ ∈ l.accepted ∧ Operations.name k = name := by
  simp only [Catalogue.names, h.entries, List.mem_map, mem_kernelsFor_iff]

/-- A registration puts its kernel behind those of its operation, and does nothing to others. -/
theorem entries_perform (h : l.Faithful) (r : Registration ι) (i : ι) :
    (l.perform r).catalogue.entries i =
      if r.1 = i ∧ Operations.name r.2 ∉ l.catalogue.names r.1 then
        l.catalogue.entries i ++ kernelsFor i [r]
      else l.catalogue.entries i := by
  by_cases hr : Operations.name r.2 ∈ l.catalogue.names r.1
  · rw [h.perform_of_mem hr, if_neg fun hcond => hcond.2 hr]
  · rw [perform_of_not_mem hr]
    refine (entries_append _ r i).trans ?_
    split
    · rfl
    · rename_i hi
      rw [kernelsFor_other fun heq => hi ⟨heq, hr⟩, List.append_nil]
      rfl

theorem perform (h : l.Faithful) (r : Registration ι) : (l.perform r).Faithful := by
  by_cases hr : Operations.name r.2 ∈ l.catalogue.names r.1
  · rwa [h.perform_of_mem hr]
  have hentries : ∀ i, (l.perform r).catalogue.entries i =
      l.catalogue.entries i ++ kernelsFor i [r] := by
    rw [perform_of_not_mem hr]
    exact entries_append _ r
  have hopened : (l.perform r).catalogue.opened = (l.catalogue.ensure r.1).opened := by
    rw [perform_of_not_mem hr]
    rfl
  refine ⟨fun i => ?entries, fun i => ?names, fun i => ?opened, ?nodup⟩
  case entries =>
    rw [hentries, h.entries, perform_of_not_mem hr]
    exact List.filterMap_append.symm
  case names =>
    rw [Catalogue.names, hentries]
    by_cases hi : r.1 = i
    · subst hi
      rw [kernelsFor_self, List.map_append, List.map_singleton, ← List.concat_eq_append]
      exact (h.names r.1).concat hr
    · rw [kernelsFor_other hi, List.append_nil]
      exact h.names i
  case opened =>
    rw [hopened, mem_opened_ensure, hentries]
    by_cases hi : r.1 = i
    · subst hi
      simp [kernelsFor_self]
    · rw [kernelsFor_other hi, List.append_nil, h.opened]
      exact or_iff_right (Ne.symm hi)
  case nodup =>
    rw [hopened]
    exact nodup_opened_ensure h.nodup r.1

theorem after (h : l.Faithful) (rs : List (Registration ι)) : (l.after rs).Faithful := by
  induction rs generalizing l with
  | nil => exact h
  | cons r rs ih => exact ih (h.perform r)

end Faithful

theorem accepted_after_sublist (l : Log ι) (rs : List (Registration ι)) :
    ∃ accepted, (l.after rs).accepted = l.accepted ++ accepted ∧ accepted.Sublist rs := by
  induction rs generalizing l with
  | nil => exact ⟨[], (List.append_nil _).symm, .slnil⟩
  | cons r rs ih =>
    obtain ⟨accepted, heq, hsub⟩ := ih (l.perform r)
    rw [after, List.foldl_cons]
    by_cases hr : Operations.name r.2 ∈ l.catalogue.names r.1
    · rw [show (l.perform r).accepted = l.accepted by rw [perform, register_of_mem hr]] at heq
      exact ⟨accepted, heq, hsub.cons r⟩
    · rw [perform_of_not_mem hr] at heq
      exact ⟨r :: accepted, by simpa [after, perform_of_not_mem hr] using heq, hsub.cons_cons r⟩

/-- Registrations for other operations are as if they had not been made. -/
theorem entries_after_filter {l l' : Log ι} (h : l.Faithful) (h' : l'.Faithful) {i : ι}
    (heq : l.catalogue.entries i = l'.catalogue.entries i) (rs : List (Registration ι)) :
    (l.after rs).catalogue.entries i =
      (l'.after (rs.filter fun r => r.1 = i)).catalogue.entries i := by
  induction rs generalizing l l' with
  | nil => exact heq
  | cons r rs ih =>
    by_cases hi : r.1 = i
    · rw [List.filter_cons_of_pos (by simpa using hi)]
      refine ih (h.perform r) (h'.perform r) ?_
      subst hi
      rw [h.entries_perform, h'.entries_perform, Catalogue.names, Catalogue.names, heq]
    · rw [List.filter_cons_of_neg (by simpa using hi)]
      refine ih (h.perform r) h' ?_
      rw [h.entries_perform, if_neg fun hcond => hi hcond.1, heq]

end Log

/-! ## The keys -/

theorem pairwise_keys (c : Catalogue ι) : c.keys.Pairwise (· ≤ ·) := by
  refine (List.pairwise_mergeSort (fun a b c hab hbc => ?trans) (fun a b => ?total) _).imp
    of_decide_eq_true
  case trans =>
    exact decide_eq_true (le_trans (of_decide_eq_true hab) (of_decide_eq_true hbc))
  case total =>
    rw [Bool.or_eq_true, decide_eq_true_iff, decide_eq_true_iff]
    exact le_total a b

theorem keys_perm (c : Catalogue ι) : c.keys.Perm (c.opened.map Operations.key) :=
  List.mergeSort_perm _ _

/-! ## The log is faithful -/

/-- Kernels are registered one after the other in a new catalogue, for any operations and under any
    names, whether some are refused or not. The next one is refused as a duplicate exactly if one of
    its name was accepted for the same operation, and then nothing changes; otherwise it is
    accepted. The kernels of an operation are those accepted for it, in the order of the calls and
    under names of their own, and they are what the calls for it alone would have left. The keys are
    in order, one for each operation that has a kernel. -/
theorem log_is_faithful (calls : List (Registration ι)) :
    let log := Log.after {} calls
    log.accepted.Sublist calls ∧
    (∀ (i : ι) (k : Operations.Entry i),
      ((∃ k', ⟨i, k'⟩ ∈ log.accepted ∧ Operations.name k' = Operations.name k) →
        log.catalogue.register i k =
          (.error (.duplicate (Operations.key i) (Operations.name k)), log.catalogue)) ∧
      ((¬ ∃ k', ⟨i, k'⟩ ∈ log.accepted ∧ Operations.name k' = Operations.name k) →
        (log.catalogue.register i k).1 = .ok ())) ∧
    (∀ i, log.catalogue.entries i = kernelsFor i log.accepted ∧
      (log.catalogue.names i).Nodup ∧
      log.catalogue.entries i =
        (Log.after {} (calls.filter fun r => r.1 = i)).catalogue.entries i) ∧
    log.catalogue.keys.Pairwise (· ≤ ·) ∧
    ∃ operations : List ι, operations.Nodup ∧
      (∀ i, i ∈ operations ↔ log.catalogue.entries i ≠ []) ∧
      log.catalogue.keys.Perm (operations.map Operations.key) := by
  intro log
  have h : log.Faithful := Log.faithful_empty.after calls
  refine ⟨?_, fun i k => ⟨fun hk => ?_, fun hk => ?_⟩, fun i => ⟨h.entries i, h.names i, ?_⟩,
    pairwise_keys _, log.catalogue.opened, h.nodup, h.opened, keys_perm _⟩
  · obtain ⟨accepted, heq, hsub⟩ := Log.accepted_after_sublist {} calls
    exact (show log.accepted = accepted from heq) ▸ hsub
  · exact h.register_of_mem (h.mem_names_iff.2 hk)
  · rw [register_of_not_mem fun hmem => hk (h.mem_names_iff.1 hmem)]
  · exact Log.entries_after_filter Log.faithful_empty Log.faithful_empty rfl calls

end Catalogue

end KernelDispatch
