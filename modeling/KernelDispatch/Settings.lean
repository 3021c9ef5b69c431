import KernelDispatch.Overrides
import KernelDispatch.Scratch

/-
  The settings of a context: thread count, reuse of scratch buffers, number of remembered dispatch
  decisions and selection overrides. They are written as a JSON object, or as an array of the
  values in this order; what is missing takes its default.
-/

namespace KernelDispatch

structure Settings where
  threads : Option Nat := none
  reuse : ReusePolicy := .recycle
  cacheSize : Nat := 16
  overrides : Overrides := ∅
  deriving DecidableEq

namespace Settings

instance : Inhabited Settings := ⟨{}⟩

/-! ## Reading -/

/-- The names of the settings. -/
inductive Field where
  | threads
  | reuse
  | cacheSize
  | overrides
  deriving DecidableEq, Repr

def Field.key : Field → String
  | threads => "num_threads"
  | reuse => "scratch_policy"
  | cacheSize => "dispatch_cache_size"
  | overrides => "overrides"

/-- All settings, in their order. -/
def fields : List Field := [.threads, .reuse, .cacheSize, .overrides]

def reuseOfText? (s : String) : Option ReusePolicy :=
  [ReusePolicy.recycle, .release].find? fun p => p.text == s

/-- The value of a setting at the front of some tokens, put into `s`, and what follows it. A
    reuse policy may be spelled as an object of its name and null. -/
def readField (s : Settings) :
    Field → List Json.Token → Except (Option PolicyError) (Settings × List Json.Token)
  | .threads, .null :: ts => .ok ({ s with threads := none }, ts)
  | .threads, .number spelling :: ts =>
    match Json.count? spelling with
    | some n => .ok ({ s with threads := some n }, ts)
    | none => .error none
  | .reuse, .text (some name) :: ts =>
    match reuseOfText? name with
    | some p => .ok ({ s with reuse := p }, ts)
    | none => .error none
  | .reuse, .opening .object :: .text (some name) :: .colon :: .null :: .closing .object :: ts =>
    match reuseOfText? name with
    | some p => .ok ({ s with reuse := p }, ts)
    | none => .error none
  | .cacheSize, .number spelling :: ts =>
    match Json.count? spelling with
    | some n => .ok ({ s with cacheSize := n }, ts)
    | none => .error none
  | .overrides, ts =>
    match Overrides.ofTokens (Overrides.nestingLimit - 2) ts with
    | .ok (o, rest) => .ok ({ s with overrides := o }, rest)
    | .error e => .error e
  | _, _ => .error none

/-- The values of the fields that are left, inside an array after an opening bracket or a
    comma. -/
def readItems (s : Settings) :
    List Field → List Json.Token → Except (Option PolicyError) (Settings × List Json.Token)
  | [], _ => .error none
  | f :: fs, ts =>
    match readField s f ts with
    | .error e => .error e
    | .ok (s, .closing .array :: rest) => .ok (s, rest)
    | .ok (s, .comma :: rest) => readItems s fs rest
    | .ok _ => .error none

theorem ofTokens_length {depth : Nat} {ts rest : List Json.Token} {o : Overrides}
    (h : Overrides.ofTokens depth ts = .ok (o, rest)) : rest.length < ts.length := by
  unfold Overrides.ofTokens at h
  split at h
  · simp at h
  · rename_i hm
    split at h
    · simp only [Except.ok.injEq, Prod.mk.injEq] at h
      exact h.2 ▸ Json.members?_length hm
    · simp at h

theorem readField_length {s s' : Settings} {f : Field} {ts rest : List Json.Token}
    (h : readField s f ts = .ok (s', rest)) : rest.length < ts.length := by
  unfold readField at h
  split at h
  · simp only [Except.ok.injEq, Prod.mk.injEq] at h
    simp [h.2]
  · split at h
    · simp only [Except.ok.injEq, Prod.mk.injEq] at h
      simp [h.2]
    · simp at h
  · split at h
    · simp only [Except.ok.injEq, Prod.mk.injEq] at h
      simp [h.2]
    · simp at h
  · split at h
    · simp only [Except.ok.injEq, Prod.mk.injEq] at h
      simp only [List.length_cons, h.2]
      omega
    · simp at h
  · split at h
    · simp only [Except.ok.injEq, Prod.mk.injEq] at h
      simp [h.2]
    · simp at h
  · split at h
    · rename_i ho
      simp only [Except.ok.injEq, Prod.mk.injEq] at h
      exact h.2 ▸ ofTokens_length ho
    · simp at h
  · simp at h

/-- The members of an object from a key on. A setting may be given once; an unknown key is passed
    over with its value. -/
def readMembers (s : Settings) (seen : List Field) (ts : List Json.Token) :
    Except (Option PolicyError) (Settings × List Json.Token) :=
  match ts with
  | .text (some key) :: .colon :: ts =>
    match fields.find? fun f => f.key == key with
    | some f =>
      if f ∈ seen then .error none
      else match _h : readField s f ts with
        | .error e => .error e
        | .ok (s, .closing .object :: rest) => .ok (s, rest)
        | .ok (s, .comma :: rest) => readMembers s (f :: seen) rest
        | .ok _ => .error none
    | none =>
      match _h : Json.skip? .skim ts with
      | some (.closing .object :: rest) => .ok (s, rest)
      | some (.comma :: rest) => readMembers s seen rest
      | _ => .error none
  | _ => .error none
termination_by ts.length
decreasing_by
  · have := readField_length _h
    simp only [List.length_cons] at this ⊢
    omega
  · have := Json.skipFrom?_length _h
    simp only [List.length_cons] at this ⊢
    omega

/-- Settings at the front of some tokens, and what follows them. -/
def ofTokens : List Json.Token → Except (Option PolicyError) (Settings × List Json.Token)
  | .opening .object :: .closing .object :: ts => .ok (default, ts)
  | .opening .object :: ts => readMembers default [] ts
  | .opening .array :: .closing .array :: ts => .ok (default, ts)
  | .opening .array :: ts => readItems default fields ts
  | _ => .error none

/-- Reads settings that make up a whole text. -/
def parse (text : String) : Except ConfigError Settings :=
  match ofTokens (Json.scan text.toList) with
  | .ok (s, []) => .ok s
  | .ok (_, _ :: _) => .error (.context none)
  | .error e => .error (.context e)

/-! ## Writing -/

def countToken (n : Nat) : Json.Token := .number (Nat.toDigits 10 n)

def Field.tokens (s : Settings) : Field → List Json.Token
  | threads => match s.threads with
    | some n => [countToken n]
    | none => [.null]
  | reuse => [.text (some s.reuse.text)]
  | cacheSize => [countToken s.cacheSize]
  | overrides => s.overrides.tokens

def tokens (s : Settings) : List Json.Token :=
  let member (f : Field) : List Json.Token := .text (some f.key) :: .colon :: f.tokens s
  .opening .object :: (member .threads ++ .comma :: member .reuse ++ .comma ::
    member .cacheSize ++ .comma :: member .overrides ++ [.closing .object])

def text (s : Settings) : String := Json.write s.tokens

end Settings

end KernelDispatch
