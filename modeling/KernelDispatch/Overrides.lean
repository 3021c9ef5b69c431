import KernelDispatch.Error
import KernelDispatch.Json.Value
import KernelDispatch.Text.Affix
import KernelDispatch.Text.Blank

/-
  Overrides of kernel selection: for the key of an operation, the name of the one kernel that may
  be selected. They are written as a JSON object of policies, each either blank, a name, or
  `force=` and a name.
-/

namespace KernelDispatch

/-! ## Policies -/

/-- The name that a policy prescribes; the empty name leaves the choice to the order of
    registration. -/
structure Policy where
  name : String
  deriving DecidableEq, Repr

namespace Policy

/-- Texts that are equal once ASCII letters are written small. -/
def sameLetters (a b : List Char) : Bool := a.map Char.toLower == b.map Char.toLower

/-- Whether a trimmed text asks for a choice by measurement: the word alone in letters of any
    case, or the word in small letters before a parenthesis. -/
def isBenchmark (cs : List Char) : Bool :=
  sameLetters cs "benchmark".toList || "benchmark(".toList.isPrefixOf cs

/-- The policy that a trimmed text spells. -/
def ofTrimmed (cs : List Char) : Except PolicyError Policy :=
  match Text.after? "force=".toList cs with
  | some rest => .ok ⟨String.ofList (Text.trimChars rest)⟩
  | none =>
    if isBenchmark cs then .error (.benchmark (String.ofList cs))
    else if cs.contains '=' then .error (.unknownOption (String.ofList cs))
    else .ok ⟨String.ofList cs⟩

def parse (s : String) : Except PolicyError Policy := ofTrimmed (Text.trimChars s.toList)

def text (p : Policy) : String := if p.name = "" then "" else "force=" ++ p.name

end Policy

/-! ## Overrides -/

instance : KeyOrder String where
  lt := (· < ·)
  decidableEq := inferInstance
  decidableLt a b := inferInstanceAs (Decidable (a < b))
  lt_irrefl := String.lt_irrefl
  lt_trans := String.lt_trans
  connected a b := by
    by_cases h : a < b
    · exact .inl h
    · by_cases h' : b < a
      · exact .inr (.inr h')
      · exact .inr (.inl (String.le_antisymm (String.not_lt.1 h') (String.not_lt.1 h)))

/-- Policies by the key of the operation. -/
structure Overrides where
  policies : OrderedMap String Policy := ∅
  deriving DecidableEq

namespace Overrides

instance : EmptyCollection Overrides := ⟨{}⟩

def isEmpty (o : Overrides) : Bool := o.policies.isEmpty

/-- The kernel prescribed for a key, if there is one. -/
def priorityFor (o : Overrides) (key : String) : Option String :=
  match o.policies.get? key with
  | some p => if p.name = "" then none else some p.name
  | none => none

/-- Prescribes a kernel, by its name as it is given. -/
def force (o : Overrides) (key name : String) : Overrides := ⟨o.policies.insert key ⟨name⟩⟩

/-! ## Reading and writing -/

/-- Overrides from the members of an object; of equal keys the last one counts. The first value
    that is no policy is reported, with its reason if it is a string. -/
def ofMembers (o : Overrides) : List Json.Member → Except (Option PolicyError) Overrides
  | [] => .ok o
  | (_, none) :: _ => .error none
  | (key, some s) :: rest =>
    match Policy.parse s with
    | .ok p => ofMembers ⟨o.policies.insert key p⟩ rest
    | .error e => .error (some e)

/-- Overrides at the front of some tokens, and what follows them. The syntax of the whole object
    comes before the policies in it. -/
def ofTokens (depth : Nat) (ts : List Json.Token) :
    Except (Option PolicyError) (Overrides × List Json.Token) :=
  match Json.members? (.keep depth) ts with
  | none => .error none
  | some (members, rest) =>
    match ofMembers ∅ members with
    | .ok o => .ok (o, rest)
    | .error e => .error e

/-- JSON values nest at most this deep. -/
def nestingLimit : Nat := 127

/-- Reads overrides that make up a whole text. -/
def parse (s : String) : Except ConfigError Overrides :=
  match ofTokens (nestingLimit - 1) (Json.scan s.toList) with
  | .ok (o, []) => .ok o
  | .ok (_, _ :: _) => .error (.overrides none)
  | .error e => .error (.overrides e)

/-- The tokens of the members, with commas between them. -/
def memberTokens : List (String × Policy) → List Json.Token
  | [] => []
  | [(key, p)] => [.text (some key), .colon, .text (some p.text)]
  | (key, p) :: rest => .text (some key) :: .colon :: .text (some p.text) :: .comma ::
      memberTokens rest

def tokens (o : Overrides) : List Json.Token :=
  .opening .object :: (memberTokens o.policies.entries ++ [.closing .object])

def text (o : Overrides) : String := Json.write o.tokens

end Overrides

end KernelDispatch
