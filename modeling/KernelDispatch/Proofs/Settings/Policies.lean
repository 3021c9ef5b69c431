import KernelDispatch.Overrides
import KernelDispatch.Proofs.Text.Trimming

/-
  The texts that spell policies. Without the white space around it such a text is empty, or
  `force=` and a name, or a name alone (`Policy.parse_eq_ok_iff`). A name alone has no equals sign
  in it and asks for no choice by measurement. The word `benchmark` is refused in letters of any
  case, but before a parenthesis in small letters only, so settings such as `Benchmark(4)` are read
  as names; these are the only texts that are read against the grammar
  (`Policy.follows_grammar_iff`).
-/

namespace KernelDispatch

/-! ## What is read -/

namespace Policy

/-- Whether a trimmed text asks for a choice by measurement: the word alone, or the word before a
    parenthesis, in letters of any case. -/
def Measured (t : List Char) : Prop :=
  t.map Char.toLower = "benchmark".toList ∨ "benchmark(".toList <+: t.map Char.toLower

/-- The settings among these that are refused: before a parenthesis, those in small letters. -/
def Refused (t : List Char) : Prop :=
  t.map Char.toLower = "benchmark".toList ∨ "benchmark(".toList <+: t

/-- The word before a parenthesis in letters that are not all small. -/
def SpelledLarge (t : List Char) : Prop :=
  "benchmark(".toList <+: t.map Char.toLower ∧ ¬ "benchmark(".toList <+: t

/-- The trimmed texts that spell a policy, if those of a kind are reserved: the empty text,
    `force=` with whatever follows, and every other text without an equals sign. -/
def Grammatical (reserved : List Char → Prop) (t : List Char) : Prop :=
  t = [] ∨ "force=".toList <+: t ∨ '=' ∉ t ∧ ¬ reserved t

instance : DecidablePred Measured := fun _ => inferInstanceAs (Decidable (_ ∨ _))

instance : DecidablePred SpelledLarge := fun _ => inferInstanceAs (Decidable (_ ∧ _))

instance : DecidablePred Refused := fun _ => inferInstanceAs (Decidable (_ ∨ _))

instance (reserved : List Char → Prop) [DecidablePred reserved] :
    DecidablePred (Grammatical reserved) := fun _ => inferInstanceAs (Decidable (_ ∨ _ ∨ _))

theorem isBenchmark_iff (t : List Char) : isBenchmark t = true ↔ Refused t := by
  have hsmall : "benchmark".toList.map Char.toLower = "benchmark".toList := by decide
  rw [isBenchmark, sameLetters, hsmall, Bool.or_eq_true, beq_iff_eq, List.isPrefixOf_iff_prefix,
    Refused]

/-- What is refused asks for a measurement, and what else does so is spelled in large letters. -/
theorem measured_iff (t : List Char) : Measured t ↔ Refused t ∨ SpelledLarge t := by
  have hsmall : "benchmark(".toList.map Char.toLower = "benchmark(".toList := by decide
  unfold Measured Refused SpelledLarge
  constructor
  · rintro (hword | hlower)
    · exact .inl (.inl hword)
    · by_cases hfront : "benchmark(".toList <+: t
      · exact .inl (.inr hfront)
      · exact .inr ⟨hlower, hfront⟩
  · rintro ((hword | hfront) | hlarge)
    · exact .inl hword
    · exact .inr (hsmall ▸ hfront.map Char.toLower)
    · exact .inr hlarge.1

/-- Nothing spelled in large letters is refused: the word before a parenthesis is not the word
    alone. -/
theorem SpelledLarge.not_refused {t : List Char} (h : SpelledLarge t) : ¬ Refused t := by
  rintro (hword | hfront)
  · have hlower := h.1
    rw [hword] at hlower
    exact absurd hlower (by decide)
  · exact h.2 hfront

theorem SpelledLarge.ne_nil {t : List Char} (h : SpelledLarge t) : t ≠ [] := by
  rintro rfl
  exact absurd h.1 (by decide)

theorem equals_mem_of_force {t : List Char} (h : "force=".toList <+: t) : '=' ∈ t :=
  h.subset (by decide)

/-- The two kinds of reserved settings make a difference for those between them that have no equals
    sign. -/
theorem grammatical_iff_iff (t : List Char) :
    (Grammatical Refused t ↔ Grammatical Measured t) ↔ ¬ ('=' ∉ t ∧ SpelledLarge t) := by
  constructor
  · rintro hiff ⟨hequals, hlarge⟩
    have hread : Grammatical Refused t := .inr (.inr ⟨hequals, hlarge.not_refused⟩)
    rcases hiff.1 hread with hnil | hforce | ⟨-, hmeasured⟩
    · exact hlarge.ne_nil hnil
    · exact hequals (equals_mem_of_force hforce)
    · exact hmeasured ((measured_iff t).2 (.inr hlarge))
  · intro hsmall
    have hsame : '=' ∉ t → (¬ Refused t ↔ ¬ Measured t) := fun hequals => by
      rw [measured_iff, or_iff_left fun hlarge => hsmall ⟨hequals, hlarge⟩]
    unfold Grammatical
    rw [and_congr_right hsame]

theorem eq_ofList_iff (p : Policy) (cs : List Char) :
    (⟨String.ofList cs⟩ : Policy) = p ↔ p.name.toList = cs := by
  obtain ⟨name⟩ := p
  constructor
  · rintro ⟨⟩
    exact String.toList_ofList
  · rintro rfl
    exact congrArg Policy.mk String.ofList_toList

/-- The policy that a text spells is what follows `force=`, or else the text itself, without the
    white space around it. -/
theorem parse_eq_ok_iff (s : String) (p : Policy) :
    let t := Text.trimChars s.toList
    parse s = .ok p ↔
      (∃ rest, t = "force=".toList ++ rest ∧ p.name.toList = Text.trimChars rest) ∨
        ¬ "force=".toList <+: t ∧ '=' ∉ t ∧ ¬ Refused t ∧ p.name.toList = t := by
  intro t
  show ofTrimmed t = .ok p ↔ _
  unfold ofTrimmed
  cases hafter : Text.after? "force=".toList t with
  | some rest =>
    have ht := Text.after?_eq_some_iff.1 hafter
    simp only [Except.ok.injEq, eq_ofList_iff]
    constructor
    · exact fun hname => .inl ⟨rest, ht, hname⟩
    · rintro (⟨rest', ht', hname⟩ | ⟨hfront, -⟩)
      · rw [List.append_cancel_left (ht.symm.trans ht')]
        exact hname
      · exact absurd ⟨rest, ht.symm⟩ hfront
  | none =>
    have hfront := Text.after?_eq_none_iff.1 hafter
    have hno : ∀ rest, t ≠ "force=".toList ++ rest := fun rest ht => hfront ⟨rest, ht.symm⟩
    simp only [hfront, not_false_eq_true, true_and, hno, false_and, exists_false, false_or]
    by_cases hrefused : Refused t
    · simp [(isBenchmark_iff t).2 hrefused, hrefused]
    · have hbenchmark : isBenchmark t = false :=
        Bool.eq_false_iff.2 fun h => hrefused ((isBenchmark_iff t).1 h)
      by_cases hequals : '=' ∈ t
      · simp [hbenchmark, hequals]
      · simp [hbenchmark, hequals, hrefused, eq_ofList_iff]

/-- The texts that spell a policy are those of the grammar with what is refused reserved. -/
theorem exists_parse_iff (s : String) :
    (∃ p, parse s = .ok p) ↔ Grammatical Refused (Text.trimChars s.toList) := by
  set t := Text.trimChars s.toList
  constructor
  · rintro ⟨p, hp⟩
    rcases (parse_eq_ok_iff s p).1 hp with ⟨rest, hrest, -⟩ | ⟨-, hequals, hrefused, -⟩
    · exact .inr (.inl ⟨rest, hrest.symm⟩)
    · exact .inr (.inr ⟨hequals, hrefused⟩)
  · intro h
    have hnamed : ∀ cs : List Char, (⟨String.ofList cs⟩ : Policy).name.toList = cs := fun cs =>
      String.toList_ofList
    by_cases hfront : "force=".toList <+: t
    · obtain ⟨rest, hrest⟩ := hfront
      exact ⟨_, (parse_eq_ok_iff s _).2 (.inl ⟨rest, hrest.symm, hnamed _⟩)⟩
    · have hplain : '=' ∉ t ∧ ¬ Refused t := by
        rcases h with hnil | hforce | hplain
        · rw [hnil]
          exact ⟨List.not_mem_nil, by decide⟩
        · exact absurd hforce hfront
        · exact hplain
      exact ⟨_, (parse_eq_ok_iff s _).2 (.inr ⟨hfront, hplain.1, hplain.2, hnamed _⟩)⟩

/-! ## Names -/

/-- The policy without white space around its name. -/
def trimmed (p : Policy) : Policy := ⟨Text.trim p.name⟩

theorem trimmed_eq_self_iff (p : Policy) : p.trimmed = p ↔ Text.trim p.name = p.name := by
  cases p
  simp [trimmed]

/-- A policy is read with its name trimmed. -/
theorem parse_text (p : Policy) : parse p.text = .ok p.trimmed := by
  by_cases hname : p.name = ""
  · rw [text, if_pos hname, trimmed, hname]
    rfl
  · have htext : p.text.toList = "force=".toList ++ p.name.toList := by
      rw [text, if_neg hname, String.toList_append]
    have hforce : Text.Trimmed "force=".toList := ⟨by rintro c ⟨⟩; rfl, by rintro c ⟨⟩; rfl⟩
    refine (parse_eq_ok_iff _ _).2 (.inl ⟨p.name.toList.rdropWhile Text.isBlank, ?_, ?_⟩)
    · rw [htext, hforce.trimChars_append (by decide)]
    · rw [Text.trimChars_rdropWhile, trimmed, Text.trim, String.toList_ofList]

/-- A name that has been read has no white space around it. -/
theorem trimmed_name_of_parse {s : String} {p : Policy} (h : parse s = .ok p) :
    Text.Trimmed p.name.toList := by
  rcases (parse_eq_ok_iff s p).1 h with ⟨rest, -, hname⟩ | ⟨-, -, -, hname⟩
  · rw [hname]
    exact Text.trimmed_trimChars rest
  · rw [hname]
    exact Text.trimmed_trimChars _

theorem trimmed_of_parse {s : String} {p : Policy} (h : parse s = .ok p) : p.trimmed = p := by
  rw [trimmed_eq_self_iff, Text.trim, (trimmed_name_of_parse h).trimChars_eq_self,
    String.ofList_toList]

/-- The name is empty exactly if nothing is written, or nothing but white space after `force=`. -/
theorem name_eq_empty_iff_of_parse {s : String} {p : Policy} (h : parse s = .ok p) :
    p.name = "" ↔ (∀ c ∈ s.toList, Text.isBlank c = true) ∨
      ∃ rest, Text.trimChars s.toList = "force=".toList ++ rest ∧
        ∀ c ∈ rest, Text.isBlank c = true := by
  rw [← String.toList_eq_nil_iff, ← Text.trimChars_eq_nil_iff]
  rcases (parse_eq_ok_iff s p).1 h with ⟨rest, ht, hname⟩ | ⟨hfront, -, -, hname⟩
  · rw [hname, Text.trimChars_eq_nil_iff]
    constructor
    · exact fun hblank => .inr ⟨rest, ht, hblank⟩
    · rintro (hnil | ⟨rest', ht', hblank⟩)
      · rw [ht] at hnil
        cases hnil
      · rw [List.append_cancel_left (ht.symm.trans ht')]
        exact hblank
  · rw [hname]
    constructor
    · exact .inl
    · rintro (hnil | ⟨rest, ht, -⟩)
      · exact hnil
      · exact absurd ⟨rest, ht.symm⟩ hfront

/-- Let `t` be a text without the white space around it. The text spells a policy exactly if `t` is
    empty, starts with `force=`, or has no equals sign and is not refused. This is the grammar in
    which settings that ask for a measurement are reserved in letters of any case, unless `t` has no
    equals sign and is the word before a parenthesis in letters that are not all small. The name
    that is read has no white space around it. It is empty exactly if there is nothing but white
    space, or nothing but that after `force=`. What is written for the policy is read as the same
    policy. -/
theorem follows_grammar_iff {s : String} {t : List Char} (ht : Text.Trims s.toList t) :
    ((∃ p, parse s = .ok p) ↔ Grammatical Refused t) ∧
      (((∃ p, parse s = .ok p) ↔ Grammatical Measured t) ↔ ¬ ('=' ∉ t ∧ SpelledLarge t)) ∧
      ∀ p, parse s = .ok p →
        Text.Trimmed p.name.toList ∧
          (p.name = "" ↔ (∀ c ∈ s.toList, Text.isBlank c = true) ∨
            ∃ rest, t = "force=".toList ++ rest ∧ ∀ c ∈ rest, Text.isBlank c = true) ∧
          parse p.text = .ok p := by
  obtain rfl := Text.trims_iff.1 ht
  refine ⟨exists_parse_iff s, ?_, fun p hp => ?_⟩
  · rw [exists_parse_iff]
    exact grammatical_iff_iff _
  · refine ⟨trimmed_name_of_parse hp, name_eq_empty_iff_of_parse hp, ?_⟩
    rw [parse_text, trimmed_of_parse hp]

/-- A name with an equals sign in it, between white space of several kinds, is read and written. -/
theorem forced_equation_follows_grammar :
    let s := "\u2003force=\u00a0a = b\t"
    let t := "force=\u00a0a = b".toList
    Text.Trims s.toList t ∧ Grammatical Measured t ∧ parse s = .ok ⟨"a = b"⟩ ∧
      Text.Trimmed "a = b".toList ∧ parse (text ⟨"a = b"⟩) = .ok ⟨"a = b"⟩ := by
  intro s t
  have htrim : Text.trimChars s.toList = t := by decide +kernel
  have ht : Text.Trims s.toList t := Text.trims_iff.2 htrim
  have hread : parse s = .ok ⟨"a = b"⟩ := by decide +kernel
  obtain ⟨-, hdocumented, hnames⟩ := follows_grammar_iff ht
  obtain ⟨htrimmed, -, hwritten⟩ := hnames _ hread
  exact ⟨ht, (hdocumented.2 (by decide)).1 ⟨_, hread⟩, hread, htrimmed, hwritten⟩

/-- The word is refused in any letters, but in large letters before a parenthesis it is read as a
    name. -/
theorem large_benchmark_is_read :
    parse "Benchmark" = .error (.benchmark "Benchmark") ∧
      parse "Benchmark(x)" = .ok ⟨"Benchmark(x)"⟩ ∧
      Measured (Text.trimChars "Benchmark(x)".toList) ∧
      ¬ ∀ s, (∃ p, parse s = .ok p) ↔ Grammatical Measured (Text.trimChars s.toList) := by
  have hread : parse "Benchmark(x)" = .ok ⟨"Benchmark(x)"⟩ := by rfl
  refine ⟨by rfl, hread, by decide, fun h => ?_⟩
  exact absurd ((h "Benchmark(x)").1 ⟨_, hread⟩) (by decide)

end Policy

end KernelDispatch
