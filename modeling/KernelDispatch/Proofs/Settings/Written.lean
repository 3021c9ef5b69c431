import KernelDispatch.Proofs.Settings.Overrides
import KernelDispatch.Settings

/-
  Settings that are written and read again. Settings that were read, or are the default, and were
  then changed by a program have sizes in range and trimmed names (`Settings.Sound.changeAll`), and
  settings of this kind are read as they were written (`Settings.parse_of_writes`).
-/

namespace KernelDispatch

namespace Settings

/-- Sizes are in range, and no name in the overrides has white space around it. -/
structure Sound (s : Settings) : Prop where
  threads : ∀ n, s.threads = some n → n < sizeLimit
  cacheSize : s.cacheSize < sizeLimit
  overrides : s.overrides.trimmed = s.overrides

theorem sound_default : Sound default := ⟨by rintro n ⟨⟩, by decide, rfl⟩

/-! ## What is read is sound -/

theorem Sound.readField {s s' : Settings} (hs : s.Sound) {f : Field} {ts rest : List Json.Token}
    (h : readField s f ts = .ok (s', rest)) : s'.Sound := by
  unfold Settings.readField at h
  split at h
  · cases h
    exact ⟨by rintro n ⟨⟩, hs.cacheSize, hs.overrides⟩
  · split at h
    · rename_i n hn
      cases h
      refine ⟨fun n' hn' => ?_, hs.cacheSize, hs.overrides⟩
      cases hn'
      exact Json.lt_sizeLimit_of_count? hn
    · cases h
  · split at h
    · cases h
      exact ⟨hs.threads, hs.cacheSize, hs.overrides⟩
    · cases h
  · split at h
    · cases h
      exact ⟨hs.threads, hs.cacheSize, hs.overrides⟩
    · cases h
  · split at h
    · rename_i n hn
      cases h
      exact ⟨hs.threads, Json.lt_sizeLimit_of_count? hn, hs.overrides⟩
    · cases h
  · split at h
    · rename_i o rest' ho
      cases h
      exact ⟨hs.threads, hs.cacheSize, Overrides.trimmed_of_ofTokens ho⟩
    · cases h
  · cases h

theorem Sound.readItems {s s' : Settings} (hs : s.Sound) {fs : List Field}
    {ts rest : List Json.Token} (h : readItems s fs ts = .ok (s', rest)) : s'.Sound := by
  induction fs generalizing s ts with
  | nil => cases h
  | cons f fs ih =>
    rw [Settings.readItems] at h
    split at h
    · cases h
    · rename_i hf
      cases h
      exact hs.readField hf
    · rename_i hf
      exact ih (hs.readField hf) h
    · cases h

theorem Sound.readMembers {s s' : Settings} (hs : s.Sound) {seen : List Field}
    {ts rest : List Json.Token} (h : readMembers s seen ts = .ok (s', rest)) : s'.Sound := by
  fun_induction Settings.readMembers s seen ts with
  | case1 => cases h
  | case2 => cases h
  | case3 =>
    rename_i hf
    cases h
    exact hs.readField hf
  | case4 =>
    rename_i hf ih
    exact ih (hs.readField hf) h
  | case5 => cases h
  | case6 =>
    cases h
    exact hs
  | case7 =>
    rename_i ih
    exact ih hs h
  | case8 => cases h
  | case9 => cases h

theorem sound_of_parse {text : String} {s : Settings} (h : parse text = .ok s) : s.Sound := by
  unfold parse at h
  split at h
  · rename_i hs
    cases h
    unfold ofTokens at hs
    split at hs
    · cases hs
      exact sound_default
    · exact sound_default.readMembers hs
    · cases hs
      exact sound_default
    · exact sound_default.readItems hs
    · cases hs
  · cases h
  · cases h

/-! ## What is written is read again -/

/-- What is written for settings, with the given tokens for the overrides. -/
def tokensWith (s : Settings) (overrides : List Json.Token) : List Json.Token :=
  let member (f : Field) (ts : List Json.Token) : List Json.Token :=
    .text (some f.key) :: .colon :: ts
  .opening .object :: (member .threads (Field.threads.tokens s) ++ .comma ::
    member .reuse (Field.reuse.tokens s) ++ .comma ::
    member .cacheSize (Field.cacheSize.tokens s) ++ .comma ::
    member .overrides overrides ++ [.closing .object])

/-- The text is one that is written for the settings: the members of the overrides in some order. -/
def Writes (s : Settings) (written : String) : Prop :=
  ∃ members, members.Perm s.overrides.policies.entries ∧
    written = Json.write (s.tokensWith (Overrides.objectTokens members))

theorem writes_text (s : Settings) : s.Writes s.text := ⟨_, .refl _, rfl⟩

/-- The members one after the other, each in front of those that follow it. -/
theorem tokensWith_eq (s : Settings) (overrides : List Json.Token) :
    s.tokensWith overrides =
      .opening .object :: .text (some Field.threads.key) :: .colon ::
        (Field.threads.tokens s ++ .comma :: .text (some Field.reuse.key) :: .colon ::
          (Field.reuse.tokens s ++ .comma :: .text (some Field.cacheSize.key) :: .colon ::
            (Field.cacheSize.tokens s ++ .comma :: .text (some Field.overrides.key) :: .colon ::
              (overrides ++ [.closing .object])))) := by
  simp [tokensWith]

theorem readable_tokensWith (s : Settings) (members : List (String × Policy)) :
    Json.Readable (s.tokensWith (Overrides.objectTokens members)) := by
  have hobject : Json.Readable (Overrides.objectTokens members ++ [.closing .object]) := by
    refine Json.readable_of_forall fun t ht => ?_
    rcases List.mem_append.1 ht with ht | ht
    · exact Overrides.isWritten_objectTokens members t ht
    · rw [List.mem_singleton.1 ht]
      exact ⟨trivial, rfl⟩
  cases hthreads : s.threads <;>
    simp [tokensWith, Field.tokens, hthreads, countToken, Json.Readable, Json.Token.IsWritten,
      Json.Token.isNumber, hobject]

theorem find?_key (f : Field) : (fields.find? fun g => g.key == f.key) = some f := by
  cases f <;> rfl

/-- A member is read, and the members behind it. -/
theorem readMembers_comma {s s' : Settings} {f : Field} {seen : List Field}
    {ts rest : List Json.Token} (hf : f ∉ seen)
    (h : readField s f ts = .ok (s', .comma :: rest)) :
    readMembers s seen (.text (some f.key) :: .colon :: ts) = readMembers s' (f :: seen) rest := by
  rw [readMembers, find?_key]
  simp only [if_neg hf]
  split
  all_goals
    rename_i hread
    rw [h] at hread
    cases hread
  · rfl
  · rename_i hcomma
    exact absurd rfl (hcomma s' rest)

/-- The last member is read. -/
theorem readMembers_closing {s s' : Settings} {f : Field} {seen : List Field}
    {ts rest : List Json.Token} (hf : f ∉ seen)
    (h : readField s f ts = .ok (s', .closing .object :: rest)) :
    readMembers s seen (.text (some f.key) :: .colon :: ts) = .ok (s', rest) := by
  rw [readMembers, find?_key]
  simp only [if_neg hf]
  split
  all_goals
    rename_i hread
    rw [h] at hread
    cases hread
  · rfl
  · rename_i hclosing _
    exact absurd rfl (hclosing s' rest)

theorem readField_threads (s₀ : Settings) {s : Settings} (hs : s.Sound) (rest : List Json.Token) :
    readField s₀ .threads (Field.threads.tokens s ++ rest) =
      .ok ({ s₀ with threads := s.threads }, rest) := by
  rw [Field.tokens]
  cases hn : s.threads with
  | none => rfl
  | some n => simp [readField, countToken, Json.count?_toDigits (hs.threads n hn)]

theorem readField_reuse (s₀ s : Settings) (rest : List Json.Token) :
    readField s₀ .reuse (Field.reuse.tokens s ++ rest) =
      .ok ({ s₀ with reuse := s.reuse }, rest) := by
  have hname : reuseOfText? s.reuse.text = some s.reuse := by cases s.reuse <;> rfl
  simp [readField, Field.tokens, hname]

theorem readField_cacheSize (s₀ : Settings) {s : Settings} (hs : s.Sound)
    (rest : List Json.Token) : readField s₀ .cacheSize (Field.cacheSize.tokens s ++ rest) =
      .ok ({ s₀ with cacheSize := s.cacheSize }, rest) := by
  simp [readField, Field.tokens, countToken, Json.count?_toDigits hs.cacheSize]

theorem readField_overrides (s₀ : Settings) {s : Settings} (hs : s.Sound)
    {members : List (String × Policy)} (h : members.Perm s.overrides.policies.entries)
    (rest : List Json.Token) :
    readField s₀ .overrides (Overrides.objectTokens members ++ rest) =
      .ok ({ s₀ with overrides := s.overrides }, rest) := by
  simp [readField, Overrides.ofTokens_objectTokens _ h, hs.overrides]

/-- What is written for sound settings is read as these settings. -/
theorem parse_of_writes {s : Settings} (hs : s.Sound) {written : String} (h : s.Writes written) :
    parse written = .ok s := by
  obtain ⟨members, hperm, rfl⟩ := h
  have hread : ofTokens (s.tokensWith (Overrides.objectTokens members)) = .ok (s, []) := by
    rw [tokensWith_eq]
    show readMembers default [] _ = _
    rw [readMembers_comma (by simp) (readField_threads _ hs _),
      readMembers_comma (by simp) (readField_reuse _ s _),
      readMembers_comma (by simp) (readField_cacheSize _ hs _),
      readMembers_closing (by simp) (readField_overrides _ hs hperm _)]
  rw [parse, Json.scan_write (s.readable_tokensWith members), hread]

/-! ## Changes -/

/-- A change that a program makes to settings: a count in the range of sizes, a reuse policy, or
    overrides that were read. -/
inductive Change where
  | threads (n : Nat) (h : n < sizeLimit)
  | reuse (p : ReusePolicy)
  | overrides (text : String) (o : Overrides) (h : Overrides.parse text = .ok o)

/-- The settings after a change. -/
def change (s : Settings) : Change → Settings
  | .threads n _ => { s with threads := some n }
  | .reuse p => { s with reuse := p }
  | .overrides _ o _ => { s with overrides := o }

/-- The settings after some changes, in order. -/
def changeAll (s : Settings) (changes : List Change) : Settings := changes.foldl change s

theorem Sound.change {s : Settings} (hs : s.Sound) (c : Change) : (s.change c).Sound := by
  cases c with
  | threads n h =>
    refine ⟨fun n' hn' => ?_, hs.cacheSize, hs.overrides⟩
    cases hn'
    exact h
  | reuse p => exact ⟨hs.threads, hs.cacheSize, hs.overrides⟩
  | overrides text o h => exact ⟨hs.threads, hs.cacheSize, Overrides.trimmed_of_parse h⟩

theorem Sound.changeAll {s : Settings} (hs : s.Sound) (changes : List Change) :
    (s.changeAll changes).Sound := by
  induction changes generalizing s with
  | nil => exact hs
  | cons c changes ih => exact ih (hs.change c)

/-- Settings that were read, or are the default, and were then changed in any way are read as they
    were written, in whatever order the members of their overrides are written. -/
theorem survives_writing {s : Settings} (hs : s = default ∨ ∃ text, parse text = .ok s)
    (changes : List Change) {written : String} (h : (s.changeAll changes).Writes written) :
    parse written = .ok (s.changeAll changes) := by
  have hsound : s.Sound := by
    rcases hs with rfl | ⟨text, hparse⟩
    · exact sound_default
    · exact sound_of_parse hparse
  exact parse_of_writes (hsound.changeAll changes) h

/-- Settings in the form of an array, with a name that is spelled with white space, are read as they
    are written after two changes. -/
theorem respelled_settings_survive :
    let read : Settings :=
      { reuse := .release
        cacheSize := 0
        overrides := ((∅ : Overrides).force "matmul" "matmul_ref").force "eltwise" "" }
    let changed := read.changeAll [.threads 8 (by decide), .reuse .recycle]
    (∃ text, parse text = .ok read) ∧ parse changed.text = .ok changed := by
  intro read changed
  have hread : parse ("[null, \x7b\"release\": null\x7d, 0, " ++
      "\x7b\"matmul\": \"\\tforce= matmul_ref \", \"eltwise\": \"\"\x7d]") = .ok read := by
    decide +kernel
  exact ⟨⟨_, hread⟩, survives_writing (.inr ⟨_, hread⟩) _ (writes_text _)⟩

end Settings

end KernelDispatch
