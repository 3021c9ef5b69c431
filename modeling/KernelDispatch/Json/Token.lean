import KernelDispatch.Size
import KernelDispatch.Text.Hex

/-
  The tokens of JSON text. `scan` splits a text into tokens and ends with `Token.fault` where no
  token starts; `Token.chars` writes a token. A quoted string whose escapes name no characters is
  still a token, so that what is only skipped over need not make sense.
  The JSON modules stand for the library that the program reads and writes its settings with, and
  assume its documented behaviour. Of tokens this is the JSON grammar: space, tab, line feed and
  carriage return may stand between them; a control character inside a string is escaped; an escape
  beyond sixteen bits is a pair of surrogates, and half a pair names no character. The writer puts
  nothing between tokens and escapes quotes, backslashes and control characters alone.
-/

namespace KernelDispatch

namespace Json

inductive Bracket where
  | array
  | object
  deriving DecidableEq, Repr

inductive Token where
  | opening (b : Bracket)
  | closing (b : Bracket)
  | colon
  | comma
  | null
  | bool (b : Bool)
  /-- A quoted string; absent when an escape is half of a surrogate pair. -/
  | text (s : Option String)
  /-- A number, as it is spelled. -/
  | number (spelling : List Char)
  /-- No token starts here. -/
  | fault
  deriving DecidableEq, Repr

/-! ## Quoted strings -/

/-- A part of a quoted string: a character, or a code unit given by an escape. -/
inductive Piece where
  | char (c : Char)
  | unit (n : Nat)
  deriving DecidableEq, Repr

/-- The character that a one-letter escape stands for. -/
def escaped? : Char → Option Char
  | '"' => some '"'
  | '\\' => some '\\'
  | '/' => some '/'
  | 'b' => some '\x08'
  | 'f' => some '\x0c'
  | 'n' => some '\n'
  | 'r' => some '\r'
  | 't' => some '\t'
  | _ => none

/-- The pieces of a quoted string up to its closing quote, and what follows it. -/
def pieces? : List Char → Option (List Piece × List Char)
  | [] => none
  | '"' :: rest => some ([], rest)
  | '\\' :: 'u' :: a :: b :: c :: d :: rest => do
    let n ← Text.hex? [a, b, c, d]
    let (ps, rest) ← pieces? rest
    return (.unit n :: ps, rest)
  | ['\\'] => none
  | '\\' :: c :: rest => do
    let c ← escaped? c
    let (ps, rest) ← pieces? rest
    return (.char c :: ps, rest)
  | c :: rest =>
    if c < ' ' then none
    else do
      let (ps, rest) ← pieces? rest
      return (.char c :: ps, rest)

def isHighSurrogate (n : Nat) : Bool := decide (0xD800 ≤ n) && decide (n ≤ 0xDBFF)

def isLowSurrogate (n : Nat) : Bool := decide (0xDC00 ≤ n) && decide (n ≤ 0xDFFF)

/-- The characters of a quoted string. A high surrogate has to be followed by a low one, and a low
    one does not stand alone. -/
def charsOfPieces? : List Piece → Option (List Char)
  | [] => some []
  | .char c :: ps => (charsOfPieces? ps).map (c :: ·)
  | .unit n :: .unit m :: ps =>
    if isHighSurrogate n then
      if isLowSurrogate m then
        (charsOfPieces? ps).map (Char.ofNat (0x10000 + 1024 * (n - 0xD800) + (m - 0xDC00)) :: ·)
      else none
    else if isLowSurrogate n then none
    else (charsOfPieces? (.unit m :: ps)).map (Char.ofNat n :: ·)
  | .unit n :: ps =>
    if isHighSurrogate n || isLowSurrogate n then none
    else (charsOfPieces? ps).map (Char.ofNat n :: ·)

/-! ## Numbers -/

/-- The digits at the front, at least one, and what follows them. -/
def digits? (cs : List Char) : Option (List Char × List Char) :=
  match cs.takeWhile Char.isDigit with
  | [] => none
  | ds => some (ds, cs.dropWhile Char.isDigit)

/-- The digits before the point: a zero stands alone. -/
def whole? (cs : List Char) : Option (List Char × List Char) :=
  match digits? cs with
  | some ('0' :: _ :: _, _) => none
  | r => r

/-- The point and the digits after it, if there are any. -/
def fraction? : List Char → Option (List Char × List Char)
  | '.' :: cs => (digits? cs).map fun r => ('.' :: r.1, r.2)
  | cs => some ([], cs)

/-- The sign of an exponent, if there is one. -/
def exponentSign : List Char → List Char × List Char
  | '+' :: cs => (['+'], cs)
  | '-' :: cs => (['-'], cs)
  | cs => ([], cs)

/-- The exponent, if there is one. -/
def exponent? : List Char → Option (List Char × List Char)
  | c :: cs =>
    if c = 'e' ∨ c = 'E' then
      let (sign, cs) := exponentSign cs
      (digits? cs).map fun r => (c :: (sign ++ r.1), r.2)
    else some ([], c :: cs)
  | [] => some ([], [])

/-- The spelling of an unsigned number at the front, and what follows it. -/
def unsigned? (cs : List Char) : Option (List Char × List Char) := do
  let (whole, cs) ← whole? cs
  let (fraction, cs) ← fraction? cs
  let (exponent, cs) ← exponent? cs
  return (whole ++ fraction ++ exponent, cs)

/-- The spelling of a number at the front, and what follows it. -/
def number? : List Char → Option (List Char × List Char)
  | '-' :: cs => (unsigned? cs).map fun r => ('-' :: r.1, r.2)
  | cs => unsigned? cs

/-- The value of decimal digits. -/
def digitsValue (ds : List Char) : Nat := ds.foldl (fun n c => 10 * n + (c.toNat - 48)) 0

/-- The count that a spelling denotes: digits alone, in the range of sizes. -/
def count? (spelling : List Char) : Option Nat :=
  if spelling.all Char.isDigit && decide (digitsValue spelling < sizeLimit) then
    some (digitsValue spelling)
  else none

/-! ## Scanning -/

def isSpace (c : Char) : Bool := c == ' ' || c == '\n' || c == '\t' || c == '\r'

/-- Letters that a word token starts with have to be followed by the rest of the word. -/
def word? : List Char → Option (Token × List Char)
  | 'n' :: 'u' :: 'l' :: 'l' :: rest => some (.null, rest)
  | 't' :: 'r' :: 'u' :: 'e' :: rest => some (.bool true, rest)
  | 'f' :: 'a' :: 'l' :: 's' :: 'e' :: rest => some (.bool false, rest)
  | _ => none

/-- The token at the front of a text that does not start with white space. -/
def token? : List Char → Option (Token × List Char)
  | '{' :: rest => some (.opening .object, rest)
  | '}' :: rest => some (.closing .object, rest)
  | '[' :: rest => some (.opening .array, rest)
  | ']' :: rest => some (.closing .array, rest)
  | ':' :: rest => some (.colon, rest)
  | ',' :: rest => some (.comma, rest)
  | '"' :: rest => (pieces? rest).map fun r =>
    (.text ((charsOfPieces? r.1).map String.ofList), r.2)
  | cs => match word? cs with
    | some r => some r
    | none => (number? cs).map fun r => (.number r.1, r.2)

theorem pieces?_length {cs : List Char} {ps : List Piece} {rest : List Char}
    (h : pieces? cs = some (ps, rest)) : rest.length < cs.length := by
  fun_induction pieces? cs generalizing ps rest with
  | case1 => simp at h
  | case2 => simp only [Option.some.injEq, Prod.mk.injEq] at h; simp [h.2]
  | case3 a b c d rest' ih =>
    simp only [bind, Option.bind_eq_some_iff, pure, Option.some.injEq, Prod.mk.injEq,
      Prod.exists] at h
    obtain ⟨_, _, _, r, hr, _, rfl⟩ := h
    have := ih hr
    simp only [List.length_cons]; omega
  | case4 => simp at h
  | case5 c rest' _ ih =>
    simp only [bind, Option.bind_eq_some_iff, pure, Option.some.injEq, Prod.mk.injEq,
      Prod.exists] at h
    obtain ⟨_, _, _, r, hr, _, rfl⟩ := h
    have := ih hr
    simp only [List.length_cons]; omega
  | case6 => simp at h
  | case7 c rest' _ _ _ _ _ ih =>
    simp only [bind, Option.bind_eq_some_iff, pure, Option.some.injEq, Prod.mk.injEq,
      Prod.exists] at h
    obtain ⟨_, r, hr, _, rfl⟩ := h
    have := ih hr
    simp only [List.length_cons]; omega

theorem digits?_length {cs ds rest : List Char} (h : digits? cs = some (ds, rest)) :
    rest.length < cs.length := by
  unfold digits? at h
  split at h
  · simp at h
  · rename_i hne
    simp only [Option.some.injEq, Prod.mk.injEq] at h
    obtain ⟨rfl, rfl⟩ := h
    have hlen := congrArg List.length (@List.takeWhile_append_dropWhile _ Char.isDigit cs)
    have : (cs.takeWhile Char.isDigit).length ≠ 0 := fun h0 => hne (List.length_eq_zero_iff.1 h0)
    simp only [List.length_append] at hlen
    omega

theorem fraction?_length {cs ds rest : List Char} (h : fraction? cs = some (ds, rest)) :
    rest.length ≤ cs.length := by
  unfold fraction? at h
  split at h
  · simp only [Option.map_eq_some_iff, Prod.mk.injEq, Prod.exists] at h
    obtain ⟨_, r, hr, _, rfl⟩ := h
    have := digits?_length hr
    simp only [List.length_cons]; omega
  · simp only [Option.some.injEq, Prod.mk.injEq] at h
    simp [h.2]

theorem exponentSign_length (cs : List Char) : (exponentSign cs).2.length ≤ cs.length := by
  unfold exponentSign
  split <;> simp

theorem exponent?_length {cs ds rest : List Char} (h : exponent? cs = some (ds, rest)) :
    rest.length ≤ cs.length := by
  cases cs with
  | nil =>
    simp only [exponent?, Option.some.injEq, Prod.mk.injEq] at h
    simp [← h.2]
  | cons c cs =>
    simp only [exponent?] at h
    split at h
    · simp only [Option.map_eq_some_iff, Prod.mk.injEq, Prod.exists] at h
      obtain ⟨_, r, hr, _, rfl⟩ := h
      have := digits?_length hr
      have := exponentSign_length cs
      simp only [List.length_cons]; omega
    · simp only [Option.some.injEq, Prod.mk.injEq] at h
      simp [← h.2]

theorem unsigned?_length {cs ds rest : List Char} (h : unsigned? cs = some (ds, rest)) :
    rest.length < cs.length := by
  simp only [unsigned?, bind, Option.bind_eq_some_iff, pure, Option.some.injEq, Prod.mk.injEq,
    Prod.exists] at h
  obtain ⟨_, r, hr, _, r', hr', _, r'', hr'', _, rfl⟩ := h
  have h2 := fraction?_length hr'
  have h3 := exponent?_length hr''
  have h1 : r.length < cs.length := by
    unfold whole? at hr
    split at hr
    · simp at hr
    · exact digits?_length hr
  omega

theorem word?_length {cs : List Char} {t : Token} {rest : List Char}
    (h : word? cs = some (t, rest)) : rest.length < cs.length := by
  unfold word? at h
  split at h
  · simp only [Option.some.injEq, Prod.mk.injEq] at h; simp [← h.2]; omega
  · simp only [Option.some.injEq, Prod.mk.injEq] at h; simp [← h.2]; omega
  · simp only [Option.some.injEq, Prod.mk.injEq] at h; simp [← h.2]; omega
  · simp at h

theorem number?_length {cs ds rest : List Char} (h : number? cs = some (ds, rest)) :
    rest.length < cs.length := by
  unfold number? at h
  split at h
  · simp only [Option.map_eq_some_iff, Prod.mk.injEq, Prod.exists] at h
    obtain ⟨_, r, hr, _, rfl⟩ := h
    exact Nat.lt_succ_of_lt (unsigned?_length hr)
  · exact unsigned?_length h

theorem token?_length {cs : List Char} {t : Token} {rest : List Char}
    (h : token? cs = some (t, rest)) : rest.length < cs.length := by
  unfold token? at h
  split at h
  · simp only [Option.some.injEq, Prod.mk.injEq] at h; simp [h.2]
  · simp only [Option.some.injEq, Prod.mk.injEq] at h; simp [h.2]
  · simp only [Option.some.injEq, Prod.mk.injEq] at h; simp [h.2]
  · simp only [Option.some.injEq, Prod.mk.injEq] at h; simp [h.2]
  · simp only [Option.some.injEq, Prod.mk.injEq] at h; simp [h.2]
  · simp only [Option.some.injEq, Prod.mk.injEq] at h; simp [h.2]
  · simp only [Option.map_eq_some_iff, Prod.mk.injEq, Prod.exists] at h
    obtain ⟨_, r, hr, _, rfl⟩ := h
    exact Nat.lt_succ_of_lt (pieces?_length hr)
  · split at h
    · rename_i hw
      exact word?_length (hw.trans h)
    · simp only [Option.map_eq_some_iff, Prod.mk.injEq, Prod.exists] at h
      obtain ⟨_, r, hr, _, rfl⟩ := h
      exact number?_length hr

/-- The tokens of a text, up to the first place where none starts. -/
def scan (cs : List Char) : List Token :=
  match cs with
  | [] => []
  | c :: rest =>
    if isSpace c then scan rest
    else match _h : token? (c :: rest) with
      | some (t, rest') => t :: scan rest'
      | none => [.fault]
termination_by cs.length
decreasing_by
  · simp
  · exact token?_length _h

/-! ## Writing -/

/-- How a character is written inside a quoted string. -/
def quotedChar (c : Char) : List Char :=
  if c = '"' then ['\\', '"']
  else if c = '\\' then ['\\', '\\']
  else if c = '\x08' then ['\\', 'b']
  else if c = '\x0c' then ['\\', 'f']
  else if c = '\n' then ['\\', 'n']
  else if c = '\r' then ['\\', 'r']
  else if c = '\t' then ['\\', 't']
  else if c < ' ' then '\\' :: 'u' :: Text.hexChars 4 c.toNat
  else [c]

/-- How a token is written. -/
def Token.chars : Token → List Char
  | .opening .object => ['{']
  | .closing .object => ['}']
  | .opening .array => ['[']
  | .closing .array => [']']
  | .colon => [':']
  | .comma => [',']
  | .null => "null".toList
  | .bool true => "true".toList
  | .bool false => "false".toList
  | .text s => '"' :: ((s.getD "").toList.flatMap quotedChar ++ ['"'])
  | .number spelling => spelling
  | .fault => []

/-- The text of a list of tokens, with nothing between them. -/
def write (ts : List Token) : String := String.ofList (ts.flatMap Token.chars)

end Json

end KernelDispatch
