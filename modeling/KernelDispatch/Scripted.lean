import KernelDispatch.Catalogue
import KernelDispatch.Operation.Access
import KernelDispatch.Single.Decimal

/-
  Scripted kernels: kernels whose answers are written down beforehand and which keep a journal of
  what they are asked, so that the decisions of factories and executors can be observed. What they
  compute is the source times a factor.
-/

namespace KernelDispatch

/-- The operation of scripted kernels. -/
structure Scaling where
  factor : Single
  deriving DecidableEq, Repr

instance : Operation Scaling where
  key := "scale"
  describe op := "ScaleAttrs \x7b factor: " ++ Single.text op.factor ++ " \x7d"

/-! ## The journal -/

/-- What scripted kernels are asked. -/
inductive Question where
  | supports
  | accepts
  | preferred
  | build
  | update
  | execute
  deriving DecidableEq, Repr

def Question.text : Question → String
  | supports => "supports"
  | accepts => "accepts"
  | preferred => "fallback"
  | build => "create"
  | update => "update"
  | execute => "execute"

/-- A question to a kernel; the last three come with operands. -/
structure Event where
  question : Question
  kernel : String
  operands : Option Descriptors := none
  deriving DecidableEq

def Event.text (e : Event) : String :=
  e.question.text ++ " " ++ e.kernel ++ match e.operands with
    | some ds => " " ++ ds.text
    | none => ""

/-- All events so far, the latest first. -/
abbrev Journal := List Event

/-- How often a kernel has been asked a question. -/
def Journal.count (j : Journal) (q : Question) (kernel : String) : Nat :=
  j.countP fun e => e.question == q && e.kernel == kernel

/-- Enters an event into the journal. -/
def Session.enter (s : Session Journal) (e : Event) : Session Journal :=
  { s with ambient := e :: s.ambient }

/-! ## Scripts -/

/-- A condition on the extent of an axis of an operand. -/
inductive ExtentTest where
  | multiple (operand : Operand) (axis divisor : Nat)
  | atLeast (operand : Operand) (axis bound : Nat)
  deriving DecidableEq, Repr

/-- Whether an extent passes; `ifUnknown` answers for one that is absent or unknown. -/
def ExtentTest.holds (ifUnknown : Bool) (ds : Descriptors) : ExtentTest → Bool
  | multiple operand axis divisor =>
    match ds.size? operand axis with
    | some n => n % divisor == 0
    | none => ifUnknown
  | atLeast operand axis bound =>
    match ds.size? operand axis with
    | some n => decide (bound ≤ n)
    | none => ifUnknown

/-- A condition on a configuration. -/
inductive SupportTest where
  | never
  | admitted
  | allIn (layout : Layout)
  | extent (test : ExtentTest)
  deriving DecidableEq, Repr

def SupportTest.holds (ds : Descriptors) (c : Constraints) : SupportTest → Bool
  | never => false
  | admitted => c.admits ds
  | allIn layout => ds.allInLayout layout
  | extent test => test.holds true ds

/-- The descriptors that a scripted kernel asks for. -/
inductive Wish where
  /-- The same operands, in other layouts. -/
  | relaid (layoutFor : Operand → Descriptor → Layout)
  /-- The given descriptors, or else the offered ones, all with one element type if it is
      given. -/
  | replaced (descs : Option Descriptors) (elementType : Option ElementType)

def Wish.answer (offered : Descriptors) : Wish → Option Descriptors
  | relaid layoutFor => offered.relaid? layoutFor
  | replaced descs elementType => some <| (descs.getD offered).map fun _ d =>
      { d with elementType := elementType.getD d.elementType }

/-- A wish for the configurations that meet some conditions. -/
structure Preference where
  conditions : List ExtentTest := []
  wish : Wish

inductive BuildReply where
  | built
  | refused
  /-- Refused for a reason behind the refusal. -/
  | refusedWithCause
  deriving DecidableEq, Repr

inductive UpdateReply where
  /-- The size of the source decides. -/
  | bySize
  | no
  | failed
  deriving DecidableEq, Repr

inductive RunReply where
  | done
  | failed
  deriving DecidableEq, Repr

/-- What a scripted kernel answers. An absent predicate is neither asked nor entered. -/
structure Script where
  name : String
  origin : Origin := .other
  shapeAgnostic : Bool := false
  supports : Option (List SupportTest) := none
  accepts : Option (List ExtentTest) := none
  preference : Option Preference := none
  /-- The most elements that the source may have, padding included. -/
  maxElements : Option Nat := none
  /-- The replies to each request to build, to update and to execute, in order and over everything
      built from the script; the usual reply follows the last one. -/
  builds : List BuildReply := []
  updates : List UpdateReply := []
  runs : List RunReply := []

namespace Script

/-- Enters a question that comes with operands; its number among those of its kind picks the
    reply. -/
def reply {β : Type} (script : Script) (q : Question) (replies : List β) (usual : β)
    (memory : Bindings) : Ask Journal β := fun s =>
  ((replies[Journal.count s.ambient q script.name]?).getD usual,
    s.enter ⟨q, script.name, some memory.descriptors⟩)

/-- The size of the source is in the limit. -/
def sizeFits (script : Script) (memory : Bindings) : Except MemoryError Bool := do
  let source ← memory.require (.source 0)
  return match script.maxElements with
    | none => true
    | some limit => source.desc.elementCount?.any fun n => decide (n ≤ limit)

/-- Overwrites the destination with the source times the factor, in physical order. -/
def scale (arith : Arithmetic) (op : Scaling) (memory : Bindings) (s : Store) :
    Except MemoryError Store := do
  let source ← memory.require (.source 0)
  let xs ← s.readPhysical source
  let target ← memory.require (.destination 0)
  s.writePhysical target (xs.map fun x => arith.mul x op.factor)

def update (script : Script) (memory : Bindings) : Attempt Journal Error Bool := fun s =>
  match script.reply .update script.updates .bySize memory s with
  | (.no, s) => (.ok false, s)
  | (.failed, s) => (.error (.execution { message := script.name ++ " lost" }), s)
  | (.bySize, s) => ((script.sizeFits memory).mapError .memory, s)

def execute (arith : Arithmetic) (op : Scaling) (script : Script) (memory : Bindings) :
    Attempt Journal Error Unit := fun s =>
  match script.reply .execute script.runs .done memory s with
  | (.failed, s) => (.error (.execution { message := script.name ++ " overheated" }), s)
  | (.done, s) =>
    match scale arith op memory s.store with
    | .ok store => (.ok (), { s with store })
    | .error e => (.error (.memory e), s)

def build (arith : Arithmetic) (op : Scaling) (script : Script) (memory : Bindings) :
    Attempt Journal Failure (Runner Journal) := fun s =>
  match script.reply .build script.builds .built memory s with
  | (.refused, s) => (.error { message := script.name ++ " refuses to build" }, s)
  | (.refusedWithCause, s) =>
    (.error { message := script.name ++ " refuses", causes := ["out of tiles"] }, s)
  | (.built, s) => (.ok { update := script.update, execute := script.execute arith op }, s)

/-- Answers a predicate that is in the script, and enters the question; else gives the default. -/
def answer {β γ : Type} (script : Script) (q : Question) (known : Option β) (default : γ)
    (f : β → γ) : Ask Journal γ := fun s =>
  match known with
  | none => (default, s)
  | some b => (f b, s.enter ⟨q, script.name, none⟩)

/-- The kernel that follows a script. -/
def kernel (arith : Arithmetic) (script : Script) : Kernel Scaling Journal where
  name := script.name
  origin := script.origin
  shapeAgnostic := script.shapeAgnostic
  supports _ ds c := script.answer .supports script.supports true (·.all (·.holds ds c))
  preferred _ ds := script.answer .preferred script.preference none fun p =>
    if p.conditions.all (·.holds false ds) then p.wish.answer ds else none
  acceptsShapes memory := script.answer .accepts script.accepts true
    (·.all (·.holds false memory.descriptors))
  build op memory := script.build arith op memory

end Script

/-- The one operation that scripted kernels are registered for. -/
inductive ScriptedOperation where
  | scaling
  deriving DecidableEq, Repr

instance : Operations ScriptedOperation where
  decidableEq := inferInstance
  Entry _ := Kernel Scaling Journal
  key _ := Operation.key Scaling
  name k := k.name

end KernelDispatch
