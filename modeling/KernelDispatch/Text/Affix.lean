/-
  Taking texts apart at a given part: at the front, or at its last occurrence.
-/

namespace KernelDispatch

namespace Text

/-- What follows `front`, if `cs` starts with it. -/
def after? : List Char → List Char → Option (List Char)
  | [], cs => some cs
  | f :: front, c :: cs => if f = c then after? front cs else none
  | _ :: _, [] => none

/-- What stands before and behind the last occurrence of `mark`. -/
def splitLast? (mark : List Char) : List Char → Option (List Char × List Char)
  | [] => (after? mark []).map fun rest => ([], rest)
  | c :: cs =>
    match splitLast? mark cs with
    | some (before, rest) => some (c :: before, rest)
    | none => (after? mark (c :: cs)).map fun rest => ([], rest)

theorem eq_append_of_after? {front cs rest : List Char} (h : after? front cs = some rest) :
    cs = front ++ rest := by
  induction front generalizing cs with
  | nil => simpa [after?] using h
  | cons f front ih =>
    cases cs with
    | nil => simp [after?] at h
    | cons c cs =>
      simp only [after?] at h
      split at h
      · rename_i hf
        rw [hf, ih h, List.cons_append]
      · simp at h

theorem after?_append (front cs : List Char) : after? front (front ++ cs) = some cs := by
  induction front with
  | nil => rfl
  | cons f front ih => rw [List.cons_append, after?, if_pos rfl, ih]

theorem after?_eq_some_iff {front cs rest : List Char} :
    after? front cs = some rest ↔ cs = front ++ rest :=
  ⟨eq_append_of_after?, fun h => h ▸ after?_append front rest⟩

theorem after?_eq_none_iff {front cs : List Char} : after? front cs = none ↔ ¬ front <+: cs := by
  rw [Option.eq_none_iff_forall_ne_some]
  constructor
  · rintro h ⟨rest, hrest⟩
    exact h rest (after?_eq_some_iff.2 hrest.symm)
  · intro h rest hrest
    exact h ⟨rest, (after?_eq_some_iff.1 hrest).symm⟩

end Text

end KernelDispatch
