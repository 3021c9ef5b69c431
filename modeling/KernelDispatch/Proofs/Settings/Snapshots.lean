import KernelDispatch.Context
import KernelDispatch.Environment

/-
  A process that changes its environment and reads its settings from it. What the first reading
  finds is what every later one answers, whatever was changed in between
  (`Process.settings_stay`): once both variables have been read they are not looked at again, and
  after a malformed thread count the overrides are never reached, so that all goes as if they had
  never been set.
-/

namespace KernelDispatch

/-! ## Processes -/

/-- The variables that settings are read from. -/
inductive Variable where
  | threads
  | overrides
  deriving DecidableEq, Repr

namespace Environment

/-- Sets a variable, or removes it. -/
def set (env : Environment) : Variable → Option String → Environment
  | .threads, value => { env with threads := value }
  | .overrides, value => { env with overrides := value }

/-- The environment without overrides. -/
def withoutOverrides (env : Environment) : Environment := { env with overrides := none }

/-- The settings that are read when nothing has been read before. -/
def settings (env : Environment) : Except ConfigError Settings := (Snapshot.settings {} env).1

/-- What has been read after that. -/
def snapshot (env : Environment) : Snapshot := (Snapshot.settings {} env).2

/-- The variable for the thread count holds a text that is neither blank nor a count. -/
def MalformedThreads (env : Environment) (text : String) : Prop :=
  nonBlank env.threads = some text ∧ Text.count? (Text.trim text) = none

end Environment

/-- The environment of a process, and what has been read from it so far. -/
structure Process where
  environment : Environment
  snapshot : Snapshot := {}
  deriving DecidableEq, Repr

namespace Process

/-- What a process does with its environment. -/
inductive Action where
  /-- A variable is set, or removed. A value that is no text counts as removed. -/
  | set (name : Variable) (value : Option String)
  /-- Settings are read. -/
  | readSettings
  /-- A context is made with the settings that are read. -/
  | makeContext
  deriving DecidableEq, Repr

/-- The answer to an action that reads settings. -/
inductive Reply where
  | settings (result : Except ConfigError Settings)
  | context (result : Except ConfigError Context)

/-- The answer to an action, if settings are read with the given result. -/
def Action.reply? (result : Except ConfigError Settings) : Action → Option Reply
  | set .. => none
  | readSettings => some (.settings result)
  | makeContext => some (.context (result.map Context.ofSettings))

/-- The action, without the overrides that it sets. -/
def Action.withoutOverrides : Action → Action
  | set .overrides _ => set .overrides none
  | action => action

/-- The result of reading settings. -/
def read (p : Process) : Except ConfigError Settings := (p.snapshot.settings p.environment).1

/-- The process after reading settings. -/
def afterReading (p : Process) : Process :=
  { p with snapshot := (p.snapshot.settings p.environment).2 }

/-- The process after an action. -/
def perform (p : Process) : Action → Process
  | .set name value => { p with environment := p.environment.set name value }
  | .readSettings => p.afterReading
  | .makeContext => p.afterReading

/-- The process after several actions. -/
def after (p : Process) (actions : List Action) : Process := actions.foldl perform p

/-- The answers to several actions. -/
def replies (p : Process) : List Action → List Reply
  | [] => []
  | action :: actions => (action.reply? p.read).toList ++ replies (p.perform action) actions

/-- The process before it has read anything. -/
def start (env : Environment) : Process := { environment := env }

/-- The environment in which settings are read first. -/
def firstRead (env : Environment) : List Action → Environment
  | .set name value :: actions => firstRead (env.set name value) actions
  | _ => env

/-! ## Reading again -/

/-- A snapshot that was taken answers in every environment as when it was taken, and stays. -/
theorem settings_snapshot (first env : Environment) :
    first.snapshot.settings env = (first.settings, first.snapshot) := by
  cases hthreads : Snapshot.threadsOf (Environment.nonBlank first.threads) with
  | error e =>
    -- the overrides are left unread, and the thread count is found malformed again
    simp [Environment.snapshot, Environment.settings, Snapshot.settings, Snapshot.readThreads,
      hthreads]
  | ok n =>
    cases hoverrides : Snapshot.overridesOf (Environment.nonBlank first.overrides) <;>
      simp [Environment.snapshot, Environment.settings, Snapshot.settings, Snapshot.readThreads,
        Snapshot.readOverrides, hthreads, hoverrides]

theorem read_of_snapshot {p : Process} {first : Environment} (h : p.snapshot = first.snapshot) :
    p.read = first.settings := by
  rw [read, h, settings_snapshot]

theorem snapshot_perform {p : Process} {first : Environment} (h : p.snapshot = first.snapshot)
    (action : Action) : (p.perform action).snapshot = first.snapshot := by
  have hreading : p.afterReading.snapshot = first.snapshot := by
    show (p.snapshot.settings p.environment).2 = _
    rw [h, settings_snapshot]
  cases action with
  | set name value => exact h
  | readSettings => exact hreading
  | makeContext => exact hreading

theorem replies_of_snapshot {p : Process} {first : Environment} (h : p.snapshot = first.snapshot)
    (actions : List Action) :
    p.replies actions = actions.filterMap (Action.reply? first.settings) := by
  induction actions generalizing p with
  | nil => rfl
  | cons action actions ih =>
    rw [replies, read_of_snapshot h, ih (snapshot_perform h action), List.filterMap_cons]
    cases action.reply? first.settings <;> rfl

theorem snapshot_after {p : Process} {first : Environment} (h : p.snapshot = first.snapshot)
    (actions : List Action) : (p.after actions).snapshot = first.snapshot := by
  induction actions generalizing p with
  | nil => exact h
  | cons action actions ih => exact ih (snapshot_perform h action)

/-! ## From the first reading on -/

/-- Every reading answers as the first one. -/
theorem replies_start (env : Environment) (actions : List Action) :
    (start env).replies actions =
      actions.filterMap (Action.reply? (firstRead env actions).settings) := by
  induction actions generalizing env with
  | nil => rfl
  | cons action actions ih =>
    cases action with
    | set name value => exact ih (env.set name value)
    | readSettings => exact congrArg (_ :: ·) (replies_of_snapshot rfl actions)
    | makeContext => exact congrArg (_ :: ·) (replies_of_snapshot rfl actions)

/-- A process has read nothing, or what the first reading found. -/
theorem snapshot_after_start (env : Environment) (actions : List Action) :
    ((start env).after actions).snapshot = {} ∨
      ((start env).after actions).snapshot = (firstRead env actions).snapshot := by
  induction actions generalizing env with
  | nil => exact .inl rfl
  | cons action actions ih =>
    cases action with
    | set name value => exact ih (env.set name value)
    | readSettings => exact .inr (snapshot_after rfl actions)
    | makeContext => exact .inr (snapshot_after rfl actions)

theorem firstRead_withoutOverrides (env : Environment) (actions : List Action) :
    firstRead env.withoutOverrides (actions.map Action.withoutOverrides) =
      (firstRead env actions).withoutOverrides := by
  induction actions generalizing env with
  | nil => rfl
  | cons action actions ih =>
    cases action with
    | set name value =>
      cases name with
      | threads => exact ih (env.set .threads value)
      | overrides => exact ih (env.set .overrides value)
    | readSettings => rfl
    | makeContext => rfl

theorem reply?_withoutOverrides (result : Except ConfigError Settings) (action : Action) :
    action.withoutOverrides.reply? result = action.reply? result := by
  cases action with
  | set name value => cases name <;> rfl
  | readSettings => rfl
  | makeContext => rfl

theorem settings_of_malformedThreads {env : Environment} {text : String}
    (h : env.MalformedThreads text) :
    Snapshot.settings {} env =
      (.error (.threadCount Environment.threadsVariable text), { threads := some (some text) }) := by
  simp [Snapshot.settings, Snapshot.readThreads, Snapshot.threadsOf, h.1, h.2]

/-- Let a process change its environment and read settings from it in any order. Each reading
    answers with the settings, or the error, that the environment of the first one gives, and each
    context is made of these. If the thread count was malformed then, this is the error, the
    overrides are not read at any time, and the answers are those of a process in which they are
    never set. -/
theorem settings_stay (env : Environment) (actions : List Action) :
    let first := firstRead env actions
    (start env).replies actions = actions.filterMap (Action.reply? first.settings) ∧
      ∀ text, first.MalformedThreads text →
        first.settings = .error (.threadCount Environment.threadsVariable text) ∧
          ((start env).after actions).snapshot.overrides = none ∧
          (start env).replies actions =
            (start env.withoutOverrides).replies (actions.map Action.withoutOverrides) := by
  intro first
  refine ⟨replies_start env actions, fun text hmalformed => ?_⟩
  have hfirst := settings_of_malformedThreads hmalformed
  have hsettings : first.settings = .error (.threadCount Environment.threadsVariable text) :=
    congrArg Prod.fst hfirst
  refine ⟨hsettings, ?_, ?_⟩
  · rcases snapshot_after_start env actions with hunread | hread
    · rw [hunread]
    · rw [hread, Environment.snapshot, hfirst]
  · -- the error does not depend on the overrides either
    have hblind : first.withoutOverrides.MalformedThreads text := hmalformed
    have hsame : first.withoutOverrides.settings = first.settings :=
      (congrArg Prod.fst (settings_of_malformedThreads hblind)).trans hsettings.symm
    rw [replies_start, replies_start, firstRead_withoutOverrides, hsame, List.filterMap_map]
    exact congrArg (actions.filterMap ·) (funext fun a => (reply?_withoutOverrides _ a).symm)

/-- A malformed thread count is reported for ever, though it is mended after the first reading. -/
theorem malformed_threads_stay :
    let env : Environment := { threads := some " four ", overrides := some "[]" }
    let actions : List Action := [.set .overrides (some "7"), .makeContext,
      .set .threads (some "4"), .readSettings, .set .overrides none, .makeContext]
    let e := ConfigError.threadCount "EXECSEL_NUM_THREADS" " four "
    (start env).replies actions = [.context (.error e), .settings (.error e), .context (.error e)] ∧
      ((start env).after actions).snapshot.overrides = none := by
  intro env actions e
  obtain ⟨hreplies, hmalformed⟩ := settings_stay env actions
  obtain ⟨hsettings, hunread, -⟩ := hmalformed " four " ⟨by decide, by decide⟩
  rw [hreplies, hsettings]
  exact ⟨rfl, hunread⟩

end Process

end KernelDispatch
