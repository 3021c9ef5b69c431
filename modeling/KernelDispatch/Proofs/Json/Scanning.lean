import KernelDispatch.Json.Token
import Mathlib.Data.Nat.Digits.Defs

/-
  Tokens that are written and scanned again. Numbers and punctuation are written as they are
  spelled, strings with escapes for what may not stand in them; scanning the text of a list of
  tokens gives the list again (`scan_write`), provided that its strings name characters, its
  numbers are decimal and no number follows another one.
-/

namespace KernelDispatch

namespace Text

theorem hexDigit?_hexChar {d : Nat} (h : d < 16) : hexDigit? (hexChar d) = some d := by
  have hall : ∀ d < 16, hexDigit? (hexChar d) = some d := by decide
  exact hall d h

theorem hexFrom?_append (acc : Nat) (cs ds : List Char) :
    hexFrom? acc (cs ++ ds) = (hexFrom? acc cs).bind fun n => hexFrom? n ds := by
  induction cs generalizing acc with
  | nil => rfl
  | cons c cs ih =>
    rw [List.cons_append, hexFrom?, hexFrom?, Option.bind_assoc]
    exact congrArg _ (funext fun d => ih _)

/-- Digits of a number are read behind those that were read before. -/
theorem hexFrom?_hexChars (digits acc n : Nat) :
    hexFrom? acc (hexChars digits n) = some (16 ^ digits * acc + n % 16 ^ digits) := by
  induction digits generalizing n with
  | zero => simp [hexChars, hexFrom?, Nat.mod_one]
  | succ digits ih =>
    have hdigit := hexDigit?_hexChar (Nat.mod_lt n (by decide : 16 > 0))
    have hsplit : n % 16 ^ (digits + 1) = 16 * (n / 16 % 16 ^ digits) + n % 16 := by
      rw [Nat.pow_succ', Nat.mod_mul, Nat.add_comm]
    rw [hexChars, hexFrom?_append, ih, Option.bind_some, hexFrom?, hdigit, Option.bind_some,
      hexFrom?, hsplit, Nat.pow_succ', Nat.mul_add, Nat.mul_assoc, Nat.add_assoc]

theorem hex?_hexChars {digits n : Nat} (h : n < 16 ^ digits) :
    hex? (hexChars digits n) = some n := by
  rw [hex?, hexFrom?_hexChars, Nat.mul_zero, Nat.zero_add, Nat.mod_eq_of_lt h]

end Text

namespace Json

/-! ## Quoted strings -/

/-- A piece of a quoted string that stands for a character: the character itself, or for a control
    character its number. -/
def Piece.StandsFor (p : Piece) (c : Char) : Prop :=
  p = .char c ∨ p = .unit c.toNat ∧ c < ' '

theorem charsOfPieces?_cons {p : Piece} {c : Char} (h : p.StandsFor c) (ps : List Piece) :
    charsOfPieces? (p :: ps) = (charsOfPieces? ps).map (c :: ·) := by
  rcases h with rfl | ⟨rfl, hc⟩
  · rfl
  · have hlt : c.toNat < 32 := hc
    have hhigh : isHighSurrogate c.toNat = false := by
      simp only [isHighSurrogate, Bool.and_eq_false_iff, decide_eq_false_iff_not]
      omega
    have hlow : isLowSurrogate c.toNat = false := by
      simp only [isLowSurrogate, Bool.and_eq_false_iff, decide_eq_false_iff_not]
      omega
    cases ps with
    | nil => simp [charsOfPieces?, hhigh, hlow]
    | cons q ps => cases q <;> simp [charsOfPieces?, hhigh, hlow]

/-- A character is written as a one-letter escape, by its number, or as it is. -/
theorem quotedChar_cases (c : Char) :
    (∃ e, e ≠ 'u' ∧ escaped? e = some c ∧ quotedChar c = ['\\', e]) ∨
      (c < ' ' ∧ quotedChar c = '\\' :: 'u' :: Text.hexChars 4 c.toNat) ∨
      (c ≠ '"' ∧ c ≠ '\\' ∧ ¬ c < ' ' ∧ quotedChar c = [c]) := by
  have hescape : ∀ e x : Char, e ≠ 'u' → escaped? e = some x → c = x →
      ∃ e', e' ≠ 'u' ∧ escaped? e' = some c ∧ ['\\', e] = ['\\', e'] := by
    rintro e x hu he rfl
    exact ⟨e, hu, he, rfl⟩
  unfold quotedChar
  split_ifs with h₁ h₂ h₃ h₄ h₅ h₆ h₇ hcontrol
  · exact .inl (hescape '"' '"' (by decide) rfl h₁)
  · exact .inl (hescape '\\' '\\' (by decide) rfl h₂)
  · exact .inl (hescape 'b' '\x08' (by decide) rfl h₃)
  · exact .inl (hescape 'f' '\x0c' (by decide) rfl h₄)
  · exact .inl (hescape 'n' '\n' (by decide) rfl h₅)
  · exact .inl (hescape 'r' '\r' (by decide) rfl h₆)
  · exact .inl (hescape 't' '\t' (by decide) rfl h₇)
  · exact .inr (.inl ⟨hcontrol, rfl⟩)
  · exact .inr (.inr ⟨h₁, h₂, hcontrol, rfl⟩)

/-- A character is read as one piece, whatever follows. -/
theorem exists_piece (c : Char) : ∃ p : Piece, p.StandsFor c ∧
    ∀ rest, pieces? (quotedChar c ++ rest) = (pieces? rest).map fun r => (p :: r.1, r.2) := by
  rcases quotedChar_cases c with
    ⟨e, hu, he, hquoted⟩ | ⟨hc, hquoted⟩ | ⟨hquote, hslash, hc, hquoted⟩
  · refine ⟨.char c, .inl rfl, fun rest => ?_⟩
    have hletter : ∀ a b c' d rest', e = 'u' → rest = a :: b :: c' :: d :: rest' → False :=
      fun _ _ _ _ _ h _ => hu h
    rw [hquoted]
    show pieces? ('\\' :: e :: rest) = _
    rw [pieces?, he]
    · cases pieces? rest <;> rfl
    · exact hletter
  · have hlt : c.toNat < 16 ^ 4 := Nat.lt_trans hc (by decide)
    have hread := Text.hex?_hexChars hlt
    refine ⟨.unit c.toNat, .inr ⟨rfl, hc⟩, fun rest => ?_⟩
    rw [hquoted]
    simp only [Text.hexChars, List.nil_append, List.cons_append] at hread ⊢
    rw [pieces?, hread]
    cases pieces? rest <;> rfl
  · refine ⟨.char c, .inl rfl, fun rest => ?_⟩
    rw [hquoted, List.singleton_append, pieces?, if_neg hc]
    · cases pieces? rest <;> rfl
    · exact hquote
    all_goals simp [hslash]

/-- A written string is read again up to its closing quote. -/
theorem pieces?_quoted (cs rest : List Char) :
    ∃ ps, pieces? (cs.flatMap quotedChar ++ '"' :: rest) = some (ps, rest) ∧
      charsOfPieces? ps = some cs := by
  induction cs with
  | nil => exact ⟨[], rfl, rfl⟩
  | cons c cs ih =>
    obtain ⟨ps, hps, hcs⟩ := ih
    obtain ⟨p, hp, hread⟩ := exists_piece c
    refine ⟨p :: ps, ?_, ?_⟩
    · rw [List.flatMap_cons, List.append_assoc, hread, hps]
      rfl
    · rw [charsOfPieces?_cons hp, hcs]
      rfl

/-! ## Numbers -/

/-- No number goes on with this text. -/
def EndsNumber : List Char → Prop
  | [] => True
  | c :: _ => c.isDigit = false ∧ c ≠ '.' ∧ c ≠ 'e' ∧ c ≠ 'E'

/-- A number other than zero does not start with the digit zero. -/
theorem eq_zero_of_head?_toDigits {n : Nat} (h : (Nat.toDigits 10 n).head? = some '0') : n = 0 := by
  induction n using Nat.strongRecOn with
  | ind n ih =>
    by_cases hn : n < 10
    · rw [Nat.toDigits_of_lt_base hn, List.head?_cons, Option.some.injEq] at h
      have hall : ∀ d < 10, Nat.digitChar d = '0' → d = 0 := by decide
      exact hall n hn h
    · rw [Nat.toDigits_of_base_le (by decide) (Nat.le_of_not_lt hn),
        List.head?_append] at h
      obtain ⟨c, cs, hcs⟩ := List.exists_cons_of_ne_nil
        (Nat.toDigits_ne_nil (n := n / 10) (b := 10))
      have hhead := ih (n / 10) (by omega) (by rwa [hcs] at h ⊢)
      omega

/-- A number starts with a digit. -/
theorem toDigits_eq_cons (n : Nat) :
    ∃ d ds, Nat.toDigits 10 n = d :: ds ∧ d.isDigit = true := by
  obtain ⟨d, ds, hds⟩ := List.exists_cons_of_ne_nil (Nat.toDigits_ne_nil (n := n) (b := 10))
  have hmem : d ∈ Nat.toDigits 10 n := by simp [hds]
  exact ⟨d, ds, hds, Nat.isDigit_of_mem_toDigits (by decide) (by decide) hmem⟩

theorem unsigned?_toDigits (n : Nat) {rest : List Char} (h : EndsNumber rest) :
    unsigned? (Nat.toDigits 10 n ++ rest) = some (Nat.toDigits 10 n, rest) := by
  have hdigit : ∀ c ∈ Nat.toDigits 10 n, c.isDigit = true := fun c hc =>
    Nat.isDigit_of_mem_toDigits (by decide) (by decide) hc
  have hstop : rest.takeWhile Char.isDigit = [] ∧ rest.dropWhile Char.isDigit = rest := by
    cases rest with
    | nil => exact ⟨rfl, rfl⟩
    | cons c cs => simp [h.1]
  have hdigits : digits? (Nat.toDigits 10 n ++ rest) = some (Nat.toDigits 10 n, rest) := by
    unfold digits?
    rw [List.takeWhile_append_of_pos hdigit, List.dropWhile_append_of_pos hdigit, hstop.1, hstop.2,
      List.append_nil]
    split
    · rename_i hnil
      exact absurd hnil Nat.toDigits_ne_nil
    · rfl
  have hwhole : whole? (Nat.toDigits 10 n ++ rest) = some (Nat.toDigits 10 n, rest) := by
    unfold whole?
    rw [hdigits]
    split
    · rename_i hzero
      simp only [Option.some.injEq, Prod.mk.injEq] at hzero
      have hn := eq_zero_of_head?_toDigits (n := n) (by rw [hzero.1]; rfl)
      rw [hn] at hzero
      simp at hzero
    · rfl
  have hfraction : fraction? rest = some ([], rest) := by
    cases rest with
    | nil => rfl
    | cons c cs =>
      rw [fraction?]
      rintro cs' ⟨⟩
      exact h.2.1 rfl
  have hexponent : exponent? rest = some ([], rest) := by
    cases rest with
    | nil => rfl
    | cons c cs => rw [exponent?, if_neg (by simp [h.2.2])]
  simp [unsigned?, hwhole, hfraction, hexponent]

/-! ## Scanning -/

theorem scan_eq_cons {c : Char} {cs rest : List Char} {t : Token} (hspace : isSpace c = false)
    (h : token? (c :: cs) = some (t, rest)) : scan (c :: cs) = t :: scan rest := by
  rw [scan, hspace, if_neg (by simp)]
  split
  · rename_i h'
    rw [h] at h'
    cases h'
    rfl
  · rename_i h'
    rw [h] at h'
    cases h'

namespace Token

def isNumber : Token → Bool
  | number _ => true
  | _ => false

/-- The token is one that a writer forms: a string of characters, a count in decimal digits, or
    anything that is always spelled the same. -/
def IsWritten : Token → Prop
  | text s => s.isSome = true
  | number spelling => ∃ n, spelling = Nat.toDigits 10 n
  | fault => False
  | _ => True

end Token

theorem token?_text (s : String) (rest : List Char) :
    token? ((Token.text (some s)).chars ++ rest) = some (.text (some s), rest) := by
  obtain ⟨ps, hps, hcs⟩ := pieces?_quoted s.toList rest
  have hchars : (Token.text (some s)).chars ++ rest =
      '"' :: (s.toList.flatMap quotedChar ++ '"' :: rest) := by
    simp [Token.chars]
  rw [hchars, token?, hps, Option.map_some, hcs, Option.map_some, String.ofList_toList]

theorem token?_toDigits (n : Nat) {rest : List Char} (h : EndsNumber rest) :
    token? (Nat.toDigits 10 n ++ rest) = some (.number (Nat.toDigits 10 n), rest) := by
  obtain ⟨d, ds, hds, hd⟩ := toDigits_eq_cons n
  have hunsigned := unsigned?_toDigits n h
  rw [hds, List.cons_append] at hunsigned ⊢
  -- a digit starts no other token
  have hother : ∀ c : Char, c.isDigit = false → d ≠ c := by
    rintro c hc rfl
    rw [hc] at hd
    cases hd
  have hword : word? (d :: (ds ++ rest)) = none := by
    unfold word?
    split
    · rename_i heq
      exact absurd (List.cons.inj heq).1 (hother 'n' rfl)
    · rename_i heq
      exact absurd (List.cons.inj heq).1 (hother 't' rfl)
    · rename_i heq
      exact absurd (List.cons.inj heq).1 (hother 'f' rfl)
    · rfl
  have hnumber : number? (d :: (ds ++ rest)) = some (d :: ds, rest) := by
    rw [number?, hunsigned]
    rintro cs heq
    exact absurd (List.cons.inj heq).1 (hother '-' rfl)
  rw [token?, hword, hnumber]
  · rfl
  all_goals
    intro rest' heq
    exact absurd (List.cons.inj heq).1 (hother _ rfl)

/-- A written token is scanned again; behind a number the text must not go on with it. -/
theorem scan_chars_append {t : Token} (ht : t.IsWritten) {rest : List Char}
    (hnext : t.isNumber = true → EndsNumber rest) : scan (t.chars ++ rest) = t :: scan rest := by
  cases t with
  | opening b => cases b <;> exact scan_eq_cons rfl rfl
  | closing b => cases b <;> exact scan_eq_cons rfl rfl
  | colon => exact scan_eq_cons rfl rfl
  | comma => exact scan_eq_cons rfl rfl
  | null => exact scan_eq_cons rfl rfl
  | bool b => cases b <;> exact scan_eq_cons rfl rfl
  | text s =>
    obtain ⟨s, rfl⟩ := Option.isSome_iff_exists.1 ht
    exact scan_eq_cons rfl (token?_text s rest)
  | number spelling =>
    obtain ⟨n, rfl⟩ := ht
    have htoken := token?_toDigits n (hnext rfl)
    obtain ⟨d, ds, hds, hd⟩ := toDigits_eq_cons n
    have hspace : isSpace d = false := by
      cases hsp : isSpace d with
      | false => rfl
      | true =>
        simp only [isSpace, Bool.or_eq_true, beq_iff_eq] at hsp
        rcases hsp with ((rfl | rfl) | rfl) | rfl <;> cases hd
    show scan (Nat.toDigits 10 n ++ rest) = _
    rw [hds] at htoken ⊢
    exact scan_eq_cons hspace htoken
  | fault => exact ht.elim

/-- Lists of tokens that a writer forms, in which no number follows another one. -/
def Readable : List Token → Prop
  | [] => True
  | t :: ts => t.IsWritten ∧ (t.isNumber = true → ∀ u ∈ ts.head?, u.isNumber = false) ∧ Readable ts

theorem endsNumber_chars {t : Token} (ht : t.IsWritten) (hnumber : t.isNumber = false)
    (rest : List Char) : EndsNumber (t.chars ++ rest) := by
  cases t with
  | opening b => cases b <;> simp [Token.chars, EndsNumber]
  | closing b => cases b <;> simp [Token.chars, EndsNumber]
  | bool b => cases b <;> simp [Token.chars, EndsNumber]
  | number spelling => cases hnumber
  | fault => exact ht.elim
  | _ => simp [Token.chars, EndsNumber]

theorem scan_flatMap_chars {ts : List Token} (h : Readable ts) :
    scan (ts.flatMap Token.chars) = ts := by
  induction ts with
  | nil => rw [List.flatMap_nil, scan]
  | cons t ts ih =>
    obtain ⟨ht, hnext, hts⟩ := h
    rw [List.flatMap_cons, scan_chars_append ht, ih hts]
    intro hnumber
    cases ts with
    | nil => trivial
    | cons u us => exact endsNumber_chars hts.1 (hnext hnumber u rfl) _

/-- What is written for tokens is scanned as these tokens. -/
theorem scan_write {ts : List Token} (h : Readable ts) : scan (write ts).toList = ts := by
  rw [write, String.toList_ofList, scan_flatMap_chars h]

/-- Without numbers it is enough that each token is one that a writer forms. -/
theorem readable_of_forall {ts : List Token}
    (h : ∀ t ∈ ts, t.IsWritten ∧ t.isNumber = false) : Readable ts := by
  induction ts with
  | nil => trivial
  | cons t ts ih =>
    obtain ⟨⟨ht, hnumber⟩, hts⟩ := List.forall_mem_cons.1 h
    refine ⟨ht, fun h' => ?_, ih hts⟩
    rw [hnumber] at h'
    cases h'

/-! ## Counts -/

theorem digitsValue_toDigits (n : Nat) : digitsValue (Nat.toDigits 10 n) = n := by
  have h := Nat.ofDigitChars_ten_toDigits (n := n)
  rwa [Nat.ofDigitChars_eq_foldl] at h

/-- The decimal digits of a size denote it. -/
theorem count?_toDigits {n : Nat} (h : n < sizeLimit) :
    count? (Nat.toDigits 10 n) = some n := by
  have hdigits : (Nat.toDigits 10 n).all Char.isDigit = true :=
    List.all_eq_true.2 fun c hc => Nat.isDigit_of_mem_toDigits (by decide) (by decide) hc
  rw [count?, hdigits, digitsValue_toDigits, decide_eq_true h, Bool.and_self, if_pos rfl]

theorem lt_sizeLimit_of_count? {spelling : List Char} {n : Nat} (h : count? spelling = some n) :
    n < sizeLimit := by
  unfold count? at h
  split at h
  · rename_i hlt
    rw [Bool.and_eq_true, decide_eq_true_eq] at hlt
    cases h
    exact hlt.2
  · cases h

end Json

end KernelDispatch
