import SetterLoom.Module.Basic
import SetterLoom.Text.Quoted

/-!
# Written forms of code and entries

Code is written one instruction a line: the label, the mnemonic and the operand. Names are looked up
when the code is written, so an entry that the module has let go shows as gone.

A disassembly gives no labels; a branch shows the position it goes to. Entries of a module are listed
as records of a few of their fields.
-/

namespace SetterLoom
set_option autoImplicit false

namespace Module

/-! ## Code -/

/-- A field as an operand: its name behind that of the declaring type, if there is one. -/
def fieldText (m : Module) (f : Field) : String :=
  match m.ownerOf? f.token with
  | some owner => owner.fullName ++ "::" ++ f.name
  | none => f.name

/-- The name of a method that may be gone. -/
def methodText (m : Module) (i : MethodId) : String := (m.methodName? i).getD "<dropped>"

/-- A method as an operand, with its type arguments. -/
def useText (m : Module) (u : MethodUse) : String :=
  if u.arguments.isEmpty then m.methodText u.method
  else
    let arguments := u.arguments.map fun t => (m.typeName? t).getD "?"
    m.methodText u.method ++ "<" ++ String.intercalate ", " arguments ++ ">"

/-- An operand. -/
def operandText (m : Module) : Operand → String
  | .empty => ""
  | .int n => toString n.toInt
  | .string s => "\"" ++ s ++ "\""
  | .slot i => "V_" ++ toString i.toNat
  | .argument i => "A_" ++ toString i.toNat
  | .field f => m.fieldText f
  | .method u => m.useText u
  | .type t => (m.typeName? t).getD ""
  | .target l => l.text

/-- The mnemonic, with the text of the operand if the operation has one. -/
def opText (op : Op) (operand : String) : String :=
  match op.operand with
  | .empty => op.code.mnemonic
  | _ => op.code.mnemonic ++ " " ++ operand

/-- An instruction with its label. -/
def instructionText (m : Module) (i : Instruction) : String :=
  i.label.text ++ ": " ++ opText i.op (m.operandText i.op.operand)

/-- Code, one instruction a line. -/
def streamText (m : Module) (s : Stream) : String :=
  String.join (s.map fun i => m.instructionText i ++ "\n")

/-- An operand in a disassembly: a branch shows the position it goes to. -/
def disassembledOperand (m : Module) (s : Stream) : Operand → String
  | .target l =>
    match s.position? l with
    | some position => "@" ++ toString position
    | none => l.text
  | operand => m.operandText operand

/-- The disassembly of code. -/
def disassembly (m : Module) (s : Stream) : List String :=
  s.map fun i => opText i.op (m.disassembledOperand s i.op.operand)

/-- The instruction calls a method of the name. -/
def callsNamed (m : Module) (name : String) (i : Instruction) : Bool :=
  (i.code == .call || i.code == .callvirt)
    && i.op.method?.any fun u => (m.method? u.method).any (·.name == name)

/-- Code calls a method of the name somewhere. -/
def containsCallTo (m : Module) (s : Stream) (name : String) : Bool := s.any (m.callsNamed name)

/-! ## Entries -/

/-- The quoted name of a type that may be gone. -/
def typeNameListing (m : Module) (t : TypeId) : String :=
  Text.optional ((m.typeName? t).map Text.quoted)

/-- A type. -/
def typeListing (m : Module) (d : TypeDef) : String :=
  Text.partialRecord "CilType"
    [("token", d.token.listing), ("name", Text.quoted d.fullName), ("flavor", d.flavor.name),
     ("base", Text.optional ((d.base.bind m.typeName?).map Text.quoted))]

/-- A method. -/
def methodListing (m : Module) (d : Method) : String :=
  Text.partialRecord "Method"
    [("token", d.token.listing), ("name", Text.quoted (m.methodName d)),
     ("access", d.access.listing), ("modifiers", d.modifiers.listing)]

/-- A reference to a method. -/
def methodRefListing (m : Module) (i : MethodId) : String :=
  "MethodRef(" ++ m.methodText i ++ ")"

/-- A field. -/
def fieldListing (f : Field) : String :=
  Text.partialRecord "Field" [("token", f.token.listing), ("name", Text.quoted f.name)]

/-- A property. -/
def propertyListing (m : Module) (p : Property) : String :=
  Text.partialRecord "Property"
    [("token", p.token.listing), ("name", Text.quoted p.name), ("type", m.typeNameListing p.type)]

/-- An event. -/
def eventListing (m : Module) (e : Event) : String :=
  Text.partialRecord "Event"
    [("token", e.token.listing), ("name", Text.quoted e.name), ("type", m.typeNameListing e.type)]

/-- The registry. -/
def registryListing (m : Module) : String :=
  Text.record "TypeRegistry" [("types", toString m.registry.size)]

/-- The module. -/
def listing (m : Module) : String :=
  Text.partialRecord "CilModule"
    [("name", Text.quoted m.name), ("types", toString m.registry.size)]

end Module

end SetterLoom
