import KernelDispatch.Proofs.Operation.Matching
import Mathlib.Data.List.Nodup
import Mathlib.Data.Set.Basic

/-
  Layouts that are allowed in several calls. What an operand may have is the union of what was
  allowed for it, or anything if that is nothing, and the order of the calls does not matter
  (`Constraints.allows_union`). An operand without a list and one with an empty list are treated
  alike, so the list that counts is the recorded one or else the empty one (`Constraints.listed`).
-/

namespace KernelDispatch

namespace Constraints

/-! ## Lists of layouts -/

theorem mem_extend_iff {l : Layout} (listed ls : List Layout) :
    l ∈ extend listed ls ↔ l ∈ listed ∨ l ∈ ls := by
  induction ls generalizing listed with
  | nil => simp [extend]
  | cons m ls ih =>
    rw [extend, ih, List.mem_cons]
    by_cases hm : m ∈ listed
    · rw [if_pos hm]
      constructor
      · exact Or.imp_right .inr
      · rintro (hl | rfl | hl)
        · exact .inl hl
        · exact .inl hm
        · exact .inr hl
    · rw [if_neg hm, List.mem_append, List.mem_singleton, or_assoc]

theorem nodup_extend {listed : List Layout} (h : listed.Nodup) (ls : List Layout) :
    (extend listed ls).Nodup := by
  induction ls generalizing listed with
  | nil => exact h
  | cons m ls ih =>
    rw [extend]
    by_cases hm : m ∈ listed
    · rw [if_pos hm]
      exact ih h
    · rw [if_neg hm]
      exact ih (h.append (List.nodup_singleton m) (List.disjoint_singleton.2 hm))

/-! ## What is listed -/

/-- The layouts listed for an operand, none if it has no list. -/
def listed (c : Constraints) (p : Operand) : List Layout := (c.allowed? p).getD []

theorem allowed?_allow (c : Constraints) (p q : Operand) (ls : List Layout) :
    (c.allow p ls).allowed? q = if q = p then some (extend (c.listed p) ls) else c.allowed? q :=
  c.layouts.get?_insert p q _

theorem listed_allow (c : Constraints) (p q : Operand) (ls : List Layout) :
    (c.allow p ls).listed q = if q = p then extend (c.listed p) ls else c.listed q := by
  rw [listed, allowed?_allow]
  split <;> rfl

/-- An operand may have every layout if none is listed for it, or else those that are. -/
theorem allows_iff (c : Constraints) (p : Operand) (l : Layout) :
    c.allows p l = true ↔ c.listed p = [] ∨ l ∈ c.listed p := by
  unfold allows listed
  cases c.allowed? p with
  | none => simp
  | some ls => simp

/-! ## Calls in a row -/

/-- The constraints after layouts have been allowed in several calls. -/
def allowAll (c : Constraints) (calls : List (Operand × List Layout)) : Constraints :=
  calls.foldl (fun c call => c.allow call.1 call.2) c

/-- All layouts that several calls allow for an operand. -/
def allowedIn (calls : List (Operand × List Layout)) (p : Operand) : Set Layout :=
  {l | ∃ ls, (p, ls) ∈ calls ∧ l ∈ ls}

theorem mem_listed_allowAll (c : Constraints) (calls : List (Operand × List Layout)) (p : Operand)
    (l : Layout) : l ∈ (c.allowAll calls).listed p ↔ l ∈ c.listed p ∨ l ∈ allowedIn calls p := by
  induction calls generalizing c with
  | nil => simp [allowAll, allowedIn]
  | cons call calls ih =>
    obtain ⟨q, ls⟩ := call
    have hunion : l ∈ allowedIn ((q, ls) :: calls) p ↔ p = q ∧ l ∈ ls ∨ l ∈ allowedIn calls p := by
      simp [allowedIn, or_and_right, exists_or, and_assoc]
    show l ∈ ((c.allow q ls).allowAll calls).listed p ↔ _
    rw [ih, hunion, listed_allow]
    by_cases hp : p = q
    · subst hp
      simp [mem_extend_iff, or_assoc]
    · simp [hp]

theorem nodup_listed_allowAll {c : Constraints} (h : ∀ p, (c.listed p).Nodup)
    (calls : List (Operand × List Layout)) (p : Operand) :
    ((c.allowAll calls).listed p).Nodup := by
  induction calls generalizing c with
  | nil => exact h p
  | cons call calls ih =>
    refine ih (c := c.allow call.1 call.2) fun q => ?_
    rw [listed_allow]
    split
    · exact nodup_extend (h call.1) call.2
    · exact h q

/-- After calls that start from no restriction, exactly the layouts of their union are listed. -/
theorem mem_listed_iff (calls : List (Operand × List Layout)) (p : Operand) (l : Layout) :
    l ∈ ((∅ : Constraints).allowAll calls).listed p ↔ l ∈ allowedIn calls p := by
  rw [mem_listed_allowAll]
  exact or_iff_right List.not_mem_nil

theorem allows_allowAll_iff (calls : List (Operand × List Layout)) (p : Operand) (l : Layout) :
    ((∅ : Constraints).allowAll calls).allows p l = true ↔
      allowedIn calls p = ∅ ∨ l ∈ allowedIn calls p := by
  have hnone : ((∅ : Constraints).allowAll calls).listed p = [] ↔ allowedIn calls p = ∅ := by
    simp only [List.eq_nil_iff_forall_not_mem, Set.eq_empty_iff_forall_notMem, mem_listed_iff]
  rw [allows_iff, hnone, mem_listed_iff]

theorem allowedIn_of_perm {calls calls' : List (Operand × List Layout)} (h : calls'.Perm calls)
    (p : Operand) : allowedIn calls' p = allowedIn calls p :=
  Set.ext fun _ => exists_congr fun _ => and_congr_left' h.mem_iff

/-- Let layouts be allowed in several calls. An operand may have a layout exactly if the union of
    what the calls allow for it is empty or contains the layout, and descriptors are admitted
    exactly if this is so for every operand. A list that is recorded consists of that union, each
    layout once. The same calls in another order allow and admit the same. -/
theorem allows_union (calls : List (Operand × List Layout)) :
    let c := (∅ : Constraints).allowAll calls
    (∀ p l, c.allows p l = true ↔ allowedIn calls p = ∅ ∨ l ∈ allowedIn calls p) ∧
      (∀ ds, c.admits ds = true ↔ ∀ p d, ds.get? p = some d →
        allowedIn calls p = ∅ ∨ d.layout ∈ allowedIn calls p) ∧
      (∀ p ls, c.allowed? p = some ls → ls.Nodup ∧ ∀ l, l ∈ ls ↔ l ∈ allowedIn calls p) ∧
      ∀ calls', calls'.Perm calls →
        (∀ p l, ((∅ : Constraints).allowAll calls').allows p l = c.allows p l) ∧
          ∀ ds, ((∅ : Constraints).allowAll calls').admits ds = c.admits ds := by
  intro c
  have hadmits : ∀ calls ds, ((∅ : Constraints).allowAll calls).admits ds = true ↔
      ∀ p d, ds.get? p = some d → allowedIn calls p = ∅ ∨ d.layout ∈ allowedIn calls p := by
    intro calls ds
    simp only [Descriptors.admits_iff, allows_allowAll_iff]
  refine ⟨allows_allowAll_iff calls, hadmits calls, fun p ls hls => ?_, fun calls' hperm => ?_⟩
  · have hlisted : c.listed p = ls := by rw [listed, hls, Option.getD_some]
    have hstart : ∀ q, ((∅ : Constraints).listed q).Nodup := fun _ => List.nodup_nil
    rw [← hlisted]
    exact ⟨nodup_listed_allowAll hstart calls p, mem_listed_iff calls p⟩
  · constructor
    · intro p l
      rw [Bool.eq_iff_iff, allows_allowAll_iff, allows_allowAll_iff, allowedIn_of_perm hperm]
    · intro ds
      rw [Bool.eq_iff_iff, hadmits, hadmits]
      simp only [allowedIn_of_perm hperm]

/-- An empty list restricts nothing, a second list widens the first, and the order of the two does
    not matter. -/
theorem second_list_widens :
    let calls : List (Operand × List Layout) := [(.source 0, []), (.weights, [.planar]),
      (.weights, [.blocked 8, .planar]), (.bias, [])]
    let c := (∅ : Constraints).allowAll calls
    c.allowed? .weights = some [.planar, .blocked 8] ∧ [Layout.planar, .blocked 8].Nodup ∧
      c.allowed? (.source 0) = some [] ∧ c.allows (.source 0) .channelsLast = true ∧
      ((∅ : Constraints).allowAll calls.reverse).allows .weights (.blocked 8) = true ∧
      ((∅ : Constraints).allowAll calls.reverse).allows .weights .channelsLast = false := by
  intro calls c
  obtain ⟨-, -, hlisted, hperm⟩ := allows_union calls
  have hsame := (hperm calls.reverse (List.reverse_perm calls)).1
  exact ⟨rfl, (hlisted .weights _ rfl).1, rfl, rfl, (hsame _ _).trans rfl, (hsame _ _).trans rfl⟩

end Constraints

end KernelDispatch
