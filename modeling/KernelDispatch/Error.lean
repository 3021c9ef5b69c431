import KernelDispatch.Descriptor
import KernelDispatch.Text.Position

/-
  What can go wrong, by cause, and the one place where each cause gets its wording.
  `Error.causes` lists the causes behind an error, outermost first.
-/

namespace KernelDispatch

/-- A memory could not be made, or not be used as asked. -/
inductive MemoryError where
  /-- The layout cannot take the rank. -/
  | rank (layout : Layout) (found : Nat)
  /-- No buffer can be made while an extent is unknown. -/
  | dynamic (desc : Descriptor)
  /-- The byte size is out of range. -/
  | tooLarge (desc : Descriptor)
  /-- Elements of another type were accessed as `f32`. -/
  | elementType (found : ElementType)
  /-- The extents of a bound memory are unknown. -/
  | notStatic (desc : Descriptor)
  /-- A write in physical order with the wrong number of elements. -/
  | physicalCount (desc : Descriptor) (bytes given : Nat)
  /-- A write in logical order with the wrong number of elements. -/
  | logicalCount (desc : Descriptor) (expected given : Nat)
  /-- No memory is bound to the operand. -/
  | unbound (operand : Operand)
  /-- A kernel was never built, because its operands could not be staged. -/
  | unstaged (kernel : String)
  deriving DecidableEq, Repr

namespace MemoryError

def reason : MemoryError → String
  | rank layout found => "layout " ++ layout.text ++ " cannot describe rank-" ++ toString found ++
      " shape"
  | dynamic desc => "cannot allocate memory for dynamic descriptor " ++ desc.text
  | tooLarge desc => desc.text ++ " does not fit in memory"
  | elementType found => "f32 access to " ++ found.name ++ " memory"
  | notStatic desc => "memory " ++ desc.text ++ " is not static"
  | physicalCount desc bytes given => "raw write of " ++ toString given ++ " elements into a " ++
      toString bytes ++ "-byte buffer (" ++ desc.text ++ ")"
  | logicalCount desc expected given => "expected " ++ toString expected ++
      " logical values for " ++ desc.text ++ ", got " ++ toString given
  | unbound operand => "missing memory for port " ++ operand.text
  | unstaged kernel => kernel ++
      " has no executor: its operands could not be staged when it was built"

def message (e : MemoryError) : String := "invalid memory: " ++ e.reason

end MemoryError

/-- One operand cannot be converted into another. -/
inductive ConversionError where
  | elementType (source target : ElementType)
  | shape (source target : Shape)
  | dynamic (desc : Descriptor)
  | malformed (desc : Descriptor)
  deriving DecidableEq, Repr

def ConversionError.message : ConversionError → String
  | elementType source target => "element type " ++ source.name ++ " cannot be reordered into " ++
      target.name
  | shape source target => "logical shape " ++ source.text ++ " does not match " ++ target.text
  | dynamic desc => "descriptor " ++ desc.text ++ " is not static"
  | malformed desc => "layout of " ++ desc.text ++ " is not applicable to its rank"

/-- A selection policy that is not understood. The text has no white space around it. -/
inductive PolicyError where
  /-- Choosing by measurement is not offered. -/
  | benchmark (text : String)
  | unknownOption (text : String)
  deriving DecidableEq, Repr

def PolicyError.message : PolicyError → String
  | benchmark text => "unsupported selection policy '" ++ text ++
      "': only 'force=<name>' is recognised"
  | unknownOption text => "unknown selection policy option: " ++ text

/-- A setting that cannot be used. The reason is a policy, or else the form of the text. -/
inductive ConfigError where
  | overrides (reason : Option PolicyError)
  | context (reason : Option PolicyError)
  | threadCount (setting text : String)
  deriving DecidableEq, Repr

namespace ConfigError

/-- What is wrong, and the reason without a position. -/
def withReason (what : String) : Option PolicyError → String
  | none => what
  | some e => what ++ ": " ++ Text.withoutPosition e.message

def message : ConfigError → String
  | overrides reason => withReason "malformed selection overrides" reason
  | context reason => withReason "malformed context config" reason
  | threadCount name text => name ++ " must be a thread count, got '" ++ text ++ "'"

end ConfigError

/-- What a kernel reports when it cannot be built or cannot run: a message, and the messages of
    the causes behind it. -/
structure Failure where
  message : String
  causes : List String := []
  deriving DecidableEq, Repr

/-- Everything that can go wrong when kernels are selected, built and run. -/
inductive Error where
  /-- No registered kernel supports the operands; a name may have been prescribed. -/
  | noCandidate (operation : String) (priority : Option String) (descs : Descriptors)
  /-- No candidate accepts the operands of a call. -/
  | noneApplies (operation : String) (operands : Descriptors)
  /-- A kernel could not be built. -/
  | construction (kernel : String) (cause : Failure)
  /-- An operand could not be converted for a kernel. -/
  | conversion (operand : Operand) (cause : ConversionError)
  | memory (cause : MemoryError)
  /-- The name is taken among the kernels of the operation. -/
  | duplicate (operation name : String)
  | config (cause : ConfigError)
  /-- A kernel failed while it was running. -/
  | execution (cause : Failure)
  /-- The program ended while a kernel was running. -/
  | ended (cause : Failure)
  deriving DecidableEq

namespace Error

/-- The wording of an error. The digest of a signature is not part of it: the placeholder
    `<signature>` stands in its place. -/
def message : Error → String
  | noCandidate operation priority descs =>
    "no suitable implementation for " ++ operation ++ ": " ++
      match priority with
      | some name => "implementation '" ++ name ++ "' is not registered or does not support " ++
          descs.text
      | none => "nothing registered supports " ++ descs.text
  | noneApplies operation _ =>
    "no implementation of " ++ operation ++ " applies to shape signature <signature>"
  | construction kernel _ => "implementation " ++ kernel ++ " failed to create an executor"
  | conversion operand _ => "cannot convert operand " ++ operand.text
  | memory cause => cause.message
  | duplicate operation name =>
    "implementation " ++ name ++ " is already registered for " ++ operation
  | config cause => "invalid configuration: " ++ cause.message
  | execution cause | ended cause => cause.message

def causes : Error → List String
  | construction _ cause => cause.message :: cause.causes
  | conversion _ cause => [cause.message]
  | execution cause | ended cause => cause.causes
  | _ => []

/-- Whether a caller is told of the error. When the program has ended nobody is. -/
def isReported : Error → Bool
  | ended _ => false
  | _ => true

/-- Whether the error says that no kernel could be selected. -/
def isSelection : Error → Bool
  | noCandidate .. | noneApplies .. => true
  | _ => false

end Error

end KernelDispatch
