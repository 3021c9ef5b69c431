import KernelDispatch.Text.Blank
import Mathlib.Data.List.DropRight

/-
  White space at both ends of a text. What trimming leaves is the one part of a text that has white
  space at neither end, between parts that are white space (`Text.trims_iff`).
-/

namespace KernelDispatch

namespace Text

/-- White space stands at neither end. -/
structure Trimmed (cs : List Char) : Prop where
  first : ∀ c ∈ cs.head?, isBlank c = false
  last : ∀ c ∈ cs.getLast?, isBlank c = false

/-- A text is white space, a trimmed text and white space. -/
def Trims (cs trimmed : List Char) : Prop :=
  Trimmed trimmed ∧ ∃ front back, cs = front ++ trimmed ++ back ∧
    (∀ c ∈ front, isBlank c = true) ∧ ∀ c ∈ back, isBlank c = true

theorem trimChars_eq (cs : List Char) :
    trimChars cs = (cs.dropWhile isBlank).rdropWhile isBlank := rfl

/-- White space behind a text is trimmed. -/
theorem trimChars_append_blank (cs : List Char) {blank : List Char}
    (h : ∀ c ∈ blank, isBlank c = true) : trimChars (cs ++ blank) = trimChars cs := by
  have hend : ∀ ds : List Char, (ds ++ blank).rdropWhile isBlank = ds.rdropWhile isBlank := by
    intro ds
    rw [List.rdropWhile, List.reverse_append,
      List.dropWhile_append_of_pos fun c hc => h c (List.mem_reverse.1 hc), List.rdropWhile]
  rw [trimChars_eq, trimChars_eq, List.dropWhile_append]
  split
  · rename_i hnil
    rw [List.isEmpty_iff.1 hnil, List.dropWhile_eq_nil_iff.2 h]
  · exact hend _

theorem Trimmed.trimChars_eq_self {cs : List Char} (h : Trimmed cs) : trimChars cs = cs := by
  have hfront : cs.dropWhile isBlank = cs := by
    cases cs with
    | nil => rfl
    | cons c cs => rw [List.dropWhile_cons_of_neg (by simp [h.first c rfl])]
  rw [trimChars_eq, hfront, List.rdropWhile_eq_self_iff]
  intro hne
  rw [h.last _ (List.getLast?_eq_some_getLast hne)]
  decide

theorem getLast?_rdropWhile (cs : List Char) :
    ∀ c ∈ (cs.rdropWhile isBlank).getLast?, isBlank c = false := by
  intro c hc
  have hne : cs.rdropWhile isBlank ≠ [] := by
    rintro hnil
    rw [hnil] at hc
    cases hc
  rw [List.getLast?_eq_some_getLast hne, Option.mem_some_iff] at hc
  exact hc ▸ Bool.eq_false_iff.2 (List.rdropWhile_last_not _ _ hne)

theorem head?_trimChars (cs : List Char) : ∀ c ∈ (trimChars cs).head?, isBlank c = false := by
  intro c hc
  have hfront := List.head?_dropWhile_not isBlank cs
  obtain ⟨rest, hrest⟩ := List.rdropWhile_prefix isBlank (cs.dropWhile isBlank)
  rw [trimChars_eq] at hc
  rw [← hrest, List.head?_append, Option.mem_def.1 hc] at hfront
  simpa using hfront

theorem trimmed_trimChars (cs : List Char) : Trimmed (trimChars cs) :=
  ⟨head?_trimChars cs, getLast?_rdropWhile _⟩

theorem trims_trimChars (cs : List Char) : Trims cs (trimChars cs) := by
  refine ⟨trimmed_trimChars cs, cs.takeWhile isBlank,
    (cs.dropWhile isBlank).rtakeWhile isBlank, ?_, ?_, ?_⟩
  · rw [trimChars_eq, List.append_assoc, List.rdropWhile_append_rtakeWhile,
      List.takeWhile_append_dropWhile]
  · exact fun c hc => List.mem_takeWhile_imp hc
  · exact fun c hc => List.mem_rtakeWhile_imp hc

/-- What is left of a text is determined. -/
theorem trims_iff {cs trimmed : List Char} : Trims cs trimmed ↔ trimChars cs = trimmed := by
  constructor
  · rintro ⟨hends, front, back, rfl, hfront, hback⟩
    rw [trimChars_append_blank _ hback, trimChars_eq, List.dropWhile_append_of_pos hfront,
      ← trimChars_eq, hends.trimChars_eq_self]
  · rintro rfl
    exact trims_trimChars cs

/-- Nothing is left exactly of white space. -/
theorem trimChars_eq_nil_iff (cs : List Char) :
    trimChars cs = [] ↔ ∀ c ∈ cs, isBlank c = true := by
  constructor
  · intro hnil
    obtain ⟨-, front, back, hcs, hfront, hback⟩ := trims_trimChars cs
    rw [hnil, List.append_nil] at hcs
    intro c hc
    rw [hcs] at hc
    exact (List.mem_append.1 hc).elim (hfront c) (hback c)
  · intro hblank
    have hfront : cs.dropWhile isBlank = [] := List.dropWhile_eq_nil_iff.2 hblank
    rw [trimChars_eq, hfront]
    rfl

theorem trimChars_rdropWhile (cs : List Char) :
    trimChars (cs.rdropWhile isBlank) = trimChars cs := by
  have hblank : ∀ c ∈ cs.rtakeWhile isBlank, isBlank c = true := fun c hc =>
    List.mem_rtakeWhile_imp hc
  conv_rhs => rw [← List.rdropWhile_append_rtakeWhile (p := isBlank) (l := cs)]
  rw [trimChars_append_blank _ hblank]

/-- Behind a trimmed text, white space is trimmed at the end only. -/
theorem Trimmed.trimChars_append {front : List Char} (h : Trimmed front) (hne : front ≠ [])
    (cs : List Char) : trimChars (front ++ cs) = front ++ cs.rdropWhile isBlank := by
  refine trims_iff.1 ⟨⟨fun c hc => ?_, fun c hc => ?_⟩, [], cs.rtakeWhile isBlank, ?_, ?_, ?_⟩
  · rw [List.head?_append_of_ne_nil _ hne] at hc
    exact h.first c hc
  · rw [List.getLast?_append] at hc
    cases hrest : (cs.rdropWhile isBlank).getLast? with
    | none =>
      rw [hrest, Option.none_or] at hc
      exact h.last c hc
    | some c' =>
      rw [hrest] at hc
      cases hc
      exact getLast?_rdropWhile cs c hrest
  · rw [List.nil_append, List.append_assoc, List.rdropWhile_append_rtakeWhile]
  · exact fun c hc => nomatch hc
  · exact fun c hc => List.mem_rtakeWhile_imp hc

end Text

end KernelDispatch
