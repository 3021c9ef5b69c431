import KernelDispatch.Settings

/-
  Settings from environment variables. Each variable is read once, when it is first asked for, and
  a snapshot keeps what was found; the overrides are not asked for when the thread count is
  malformed.
-/

namespace KernelDispatch

/-- The values of the two variables. -/
structure Environment where
  threads : Option String := none
  overrides : Option String := none
  deriving DecidableEq, Repr

/-- What has been read so far; the outer option says whether the variable was read. -/
structure Snapshot where
  threads : Option (Option String) := none
  overrides : Option (Option String) := none
  deriving DecidableEq, Repr

namespace Environment

def threadsVariable : String := "EXECSEL_NUM_THREADS"

/-- The value of a variable, taken as absent when it is blank. -/
def nonBlank (value : Option String) : Option String :=
  value.filter fun s => !(Text.trimChars s.toList).isEmpty

end Environment

namespace Snapshot

open Environment

/-- The thread count as first read. -/
def readThreads (p : Snapshot) (env : Environment) : Option String × Snapshot :=
  match p.threads with
  | some value => (value, p)
  | none => (nonBlank env.threads, { p with threads := some (nonBlank env.threads) })

/-- The overrides as first read. -/
def readOverrides (p : Snapshot) (env : Environment) : Option String × Snapshot :=
  match p.overrides with
  | some value => (value, p)
  | none => (nonBlank env.overrides, { p with overrides := some (nonBlank env.overrides) })

/-- The thread count that a value spells. -/
def threadsOf : Option String → Except ConfigError (Option Nat)
  | none => .ok none
  | some text =>
    match Text.count? (Text.trim text) with
    | some n => .ok (some n)
    | none => .error (.threadCount threadsVariable text)

/-- The overrides that a value spells. -/
def overridesOf : Option String → Except ConfigError Overrides
  | none => .ok ∅
  | some text => Overrides.parse text

/-- The default settings with what the environment says put over them. -/
def settings (p : Snapshot) (env : Environment) : Except ConfigError Settings × Snapshot :=
  let (value, p) := p.readThreads env
  match threadsOf value with
  | .error e => (.error e, p)
  | .ok threads =>
    let (value, p) := p.readOverrides env
    match overridesOf value with
    | .error e => (.error e, p)
    | .ok overrides => (.ok { threads, overrides }, p)

end Snapshot

end KernelDispatch
