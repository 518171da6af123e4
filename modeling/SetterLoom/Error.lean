import SetterLoom.Code.OpCode
import SetterLoom.Machine.Value

/-!
# What can go wrong

One type of causes for the whole library. `Error.message` words them; nothing else does. Methods
and types appear by their full names.
-/

namespace SetterLoom
set_option autoImplicit false

/-- Which accessor of a property or event is meant. -/
inductive AccessorRole where
  | get
  | set
  | add
  | remove
  deriving DecidableEq, Repr

/-- The name of a role. -/
def AccessorRole.name : AccessorRole → String
  | .get => "get"
  | .set => "set"
  | .add => "add"
  | .remove => "remove"

/-- Why the machine cannot go on. `method` is the method that was running or called. -/
inductive Fault where
  | callDepth (method : String)
  | instructionLimit (limit : Nat) (method : String)
  /-- The counter of instructions was full. This is not an answer of the machine: the program ends there. -/
  | countOverflow (method : String)
  | unknownLabel (method : String)
  | pastTheEnd (method : String)
  | stackUnderflow (method : String)
  | unexpectedOperand (code : OpCode) (method : String)
  | fieldAccess (kind method : String)
  | nullCall (callee method : String)
  | noReceiver (method : String)
  | detachedConstructor (method : String)
  | delegateArguments (type : String)
  | notADelegate (ref : HeapRef)
  | unknownPointer (method : Token)
  | danglingRef (ref : HeapRef)
  | notAString (ref : HeapRef) (kind : String)
  | stringExpected (kind : String)
  | loadFrom (field : Token) (kind : String)
  | storeTo (field : Token) (kind : String)
  | memberWithoutReceiver (method : String)
  | equalsArity
  | delegateExpected (kind : String)
  | untypedHandler
  | noEventField (object : HeapRef) (event : String)
  | nameExpected (kind : String)
  | raiseShape (arguments : Nat)
  deriving DecidableEq, Repr

/-- The wording of a fault. -/
def Fault.message : Fault → String
  | .callDepth m => s!"call depth exceeded in {m}"
  | .instructionLimit n m => s!"instruction limit of {n} exceeded in {m}"
  | .countOverflow m => s!"attempt to add with overflow in {m}"
  | .unknownLabel m => s!"branch to unknown label in {m}"
  | .pastTheEnd m => s!"execution ran past the end of {m}"
  | .stackUnderflow m => s!"stack underflow in {m}"
  | .unexpectedOperand c m => s!"unexpected operand for {c.mnemonic} in {m}"
  | .fieldAccess k m => s!"field access on {k} in {m}"
  | .nullCall c m => s!"null reference calling {c} in {m}"
  | .noReceiver m => s!"instance method {m} without this"
  | .detachedConstructor m => s!"constructor {m} has no declaring type"
  | .delegateArguments t => s!"delegate {t} needs a target and a method pointer"
  | .notADelegate r => s!"{r.text} is not a delegate"
  | .unknownPointer t => s!"unknown method pointer {t.text}"
  | .danglingRef r => s!"invalid heap reference {r.text}"
  | .notAString r k => s!"expected a string at {r.text}, found {k}"
  | .stringExpected k => s!"expected a string, found {k}"
  | .loadFrom f k => s!"cannot load field {f.text} of a {k}"
  | .storeTo f k => s!"cannot store field {f.text} of a {k}"
  | .memberWithoutReceiver m => s!"{m} called without receiver"
  | .equalsArity => "Equals takes two arguments"
  | .delegateExpected k => s!"expected a delegate, found {k}"
  | .untypedHandler => "handler without delegate type"
  | .noEventField r e => s!"{r.text} has no {e} field"
  | .nameExpected k => s!"expected a property name, found {k}"
  | .raiseShape n => s!"unsupported OnPropertyChanged shape with {n} arguments"

/-- Why an operation of the library fails. -/
inductive Error where
  /-- A type or member of the runtime surface is missing. -/
  | unresolved (name : String)
  | missingAccessor (property : String) (role : AccessorRole)
  | missingBody (method : String)
  | positionOutOfRange (position length : Nat)
  | danglingBranch (position label : Nat)
  /-- The type of a property is no longer there. -/
  | releasedType (property : String)
  /-- An option has a value that is neither true nor false. -/
  | optionValue (key value : String)
  /-- The text with the options is not well-formed markup. -/
  | markup
  /-- Weaving a property of a type failed. -/
  | weave (type property : String) (cause : Error)
  | emulation (fault : Fault)
  /-- A member that the runtime answers for failed. -/
  | runtimeMember (hook method : String) (cause : Error)
  /-- A hook refused the call with a text of its own. -/
  | refused (hook method text : String)
  deriving DecidableEq, Repr

namespace Error

/-- The wording of an error. -/
def message : Error → String
  | .unresolved name => "Failed to resolve well-known member - " ++ name
  | .missingAccessor p role => s!"Property {p} has no {role.name} accessor"
  | .missingBody m => s!"Method {m} has no body"
  | .positionOutOfRange p n => s!"Index {p} is out of range for an instruction stream of length {n}"
  | .danglingBranch p l => s!"Branch at {p} targets unknown label {l}"
  | .releasedType p => s!"type of property {p} has been dropped"
  | .optionValue k v =>
    "Invalid configuration - " ++ k ++ ": expected 'true' or 'false', found '" ++ v ++ "'"
  | .markup => "malformed markup"
  | .weave t p cause => "Failed to weave " ++ t ++ "." ++ p ++ " - " ++ cause.message
  | .emulation fault => "Emulation failed - " ++ fault.message
  | .runtimeMember h m cause =>
    "Emulation failed - hook '" ++ h ++ "' failed in " ++ m ++ " - " ++ cause.message
  | .refused h m text => "Emulation failed - hook '" ++ h ++ "' failed in " ++ m ++ " - " ++ text

end Error

end SetterLoom
