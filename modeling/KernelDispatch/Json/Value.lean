import KernelDispatch.Json.Number

/-
  Passing over JSON values token by token. `step` follows the grammar with a stack of open
  brackets; `skip?` passes over one value, and `members?` reads an object whose values may be
  quoted strings.
  Of values it is assumed that the library documents the following: the members of an object come in
  the order in which they are written, a repeated key included; a value that nobody asks for is only
  checked against the grammar; and a value that is kept is also checked to nest no deeper than a
  fixed limit.
-/

namespace KernelDispatch

namespace Json

/-- How much sense a value has to make. -/
inductive Care where
  /-- It only has to be well formed. -/
  | skim
  /-- Its strings name characters, its numbers are finite, and it nests at most `depth` deep. -/
  | keep (depth : Nat)
  deriving DecidableEq, Repr

namespace Care

def takesText : Care → Option String → Bool
  | skim, _ => true
  | keep _, s => s.isSome

def takesNumber : Care → List Char → Bool
  | skim, _ => true
  | keep _, spelling => (Scaled.ofSpelling spelling).isFinite

def takesDepth : Care → Nat → Bool
  | skim, _ => true
  | keep limit, depth => decide (depth ≤ limit)

end Care

/-- What the grammar admits next. -/
inductive Awaiting where
  | value
  /-- The first value of an array, or its end. -/
  | item
  | key
  /-- The first key of an object, or its end. -/
  | member
  | colon
  /-- A comma, or the end of the innermost array or object. -/
  | next
  deriving DecidableEq, Repr

/-- Where a pass stands after one more token. -/
inductive Progress where
  | fault
  | finished
  | inside (opened : List Bracket) (awaiting : Awaiting)
  deriving DecidableEq, Repr

/-- A value has ended inside the given brackets. -/
def Progress.ended : List Bracket → Progress
  | [] => finished
  | opened => inside opened .next

/-- A value starts inside the given brackets. -/
def startValue (care : Care) (opened : List Bracket) : Token → Progress
  | .opening b =>
    if care.takesDepth (opened.length + 1) then
      .inside (b :: opened) (match b with | .array => .item | .object => .member)
    else .fault
  | .null => .ended opened
  | .bool _ => .ended opened
  | .text s => if care.takesText s then .ended opened else .fault
  | .number spelling => if care.takesNumber spelling then .ended opened else .fault
  | _ => .fault

/-- One token of a value. -/
def step (care : Care) : List Bracket → Awaiting → Token → Progress
  | .array :: below, .item, .closing .array => .ended below
  | opened, .item, t => startValue care opened t
  | opened, .value, t => startValue care opened t
  | .object :: below, .member, .closing .object => .ended below
  | opened, .member, .text s => if care.takesText s then .inside opened .colon else .fault
  | opened, .key, .text s => if care.takesText s then .inside opened .colon else .fault
  | opened, .colon, .colon => .inside opened .value
  | .array :: below, .next, .comma => .inside (.array :: below) .value
  | .object :: below, .next, .comma => .inside (.object :: below) .key
  | b :: below, .next, .closing b' => if b = b' then .ended below else .fault
  | _, _, _ => .fault

/-- What follows the rest of a value. -/
def skipFrom? (care : Care) : List Bracket → Awaiting → List Token → Option (List Token)
  | _, _, [] => none
  | opened, awaiting, t :: ts =>
    match step care opened awaiting t with
    | .fault => none
    | .finished => some ts
    | .inside opened awaiting => skipFrom? care opened awaiting ts

/-- What follows the value at the front. -/
def skip? (care : Care) (ts : List Token) : Option (List Token) := skipFrom? care [] .value ts

/-! ## Objects of strings -/

/-- Where the reading of an object stands. -/
inductive Place where
  /-- Before the first key, or the end. -/
  | first
  | key
  | colon (k : String)
  | value (k : String)
  /-- Inside a value that is not a string. -/
  | within (k : String) (opened : List Bracket) (awaiting : Awaiting)
  /-- After a value. -/
  | next
  deriving DecidableEq, Repr

/-- A member of an object; its value is absent when it is no string. -/
abbrev Member := String × Option String

/-- The rest of an object, after its opening bracket: its members, and what follows it. -/
def membersFrom? (care : Care) : Place → List Token → Option (List Member × List Token)
  | _, [] => none
  | place, t :: ts =>
    match place, t with
    | .first, .closing .object => some ([], ts)
    | .next, .closing .object => some ([], ts)
    | .next, .comma => membersFrom? care .key ts
    | .first, .text (some k) => membersFrom? care (.colon k) ts
    | .key, .text (some k) => membersFrom? care (.colon k) ts
    | .colon k, .colon => membersFrom? care (.value k) ts
    | .value k, .text (some s) =>
      (membersFrom? care .next ts).map fun r => ((k, some s) :: r.1, r.2)
    | .value k, t =>
      match step care [] .value t with
      | .fault => none
      | .finished => (membersFrom? care .next ts).map fun r => ((k, none) :: r.1, r.2)
      | .inside opened awaiting => membersFrom? care (.within k opened awaiting) ts
    | .within k opened awaiting, t =>
      match step care opened awaiting t with
      | .fault => none
      | .finished => (membersFrom? care .next ts).map fun r => ((k, none) :: r.1, r.2)
      | .inside opened awaiting => membersFrom? care (.within k opened awaiting) ts
    | _, _ => none

/-- The members of the object at the front, in order, and what follows it. -/
def members? (care : Care) : List Token → Option (List Member × List Token)
  | .opening .object :: ts => membersFrom? care .first ts
  | _ => none

theorem skipFrom?_length {care : Care} {opened : List Bracket} {awaiting : Awaiting}
    {ts rest : List Token} (h : skipFrom? care opened awaiting ts = some rest) :
    rest.length < ts.length := by
  induction ts generalizing opened awaiting with
  | nil => simp [skipFrom?] at h
  | cons t ts ih =>
    simp only [skipFrom?] at h
    split at h
    · simp at h
    · simp only [Option.some.injEq] at h; simp [h]
    · have := ih h
      simp only [List.length_cons]; omega

theorem membersFrom?_length {care : Care} {place : Place} {ts : List Token} {ms : List Member}
    {rest : List Token} (h : membersFrom? care place ts = some (ms, rest)) :
    rest.length < ts.length := by
  induction ts generalizing place ms with
  | nil => simp [membersFrom?] at h
  | cons t ts ih =>
    have later {p ms'} (h' : membersFrom? care p ts = some (ms', rest)) :
        rest.length < (t :: ts).length := Nat.lt_succ_of_lt (ih h')
    have member {p} {m : Member}
        (h' : (membersFrom? care p ts).map (fun r => (m :: r.1, r.2)) = some (ms, rest)) :
        rest.length < (t :: ts).length := by
      simp only [Option.map_eq_some_iff, Prod.mk.injEq, Prod.exists] at h'
      obtain ⟨_, r, hr, _, rfl⟩ := h'
      exact later hr
    simp only [membersFrom?] at h
    split at h
    · simp only [Option.some.injEq, Prod.mk.injEq] at h; simp [h.2]
    · simp only [Option.some.injEq, Prod.mk.injEq] at h; simp [h.2]
    · exact later h
    · exact later h
    · exact later h
    · exact later h
    · exact member h
    · split at h
      · simp at h
      · exact member h
      · exact later h
    · split at h
      · simp at h
      · exact member h
      · exact later h
    · simp at h

theorem members?_length {care : Care} {ts : List Token} {ms : List Member} {rest : List Token}
    (h : members? care ts = some (ms, rest)) : rest.length < ts.length := by
  unfold members? at h
  split at h
  · have := membersFrom?_length h
    simp only [List.length_cons]; omega
  · simp at h

end Json

end KernelDispatch
