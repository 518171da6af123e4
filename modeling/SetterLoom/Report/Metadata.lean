import SetterLoom.Module.Hierarchy
import SetterLoom.Module.Listing
import SetterLoom.Report.Basic

/-!
# Reports of metadata

The entries of a module, with the names of the entries they refer to; a reference that fails is
reported as nothing. Code is reported as its disassembly.
-/

namespace SetterLoom
set_option autoImplicit false

/-- A table: its code, its place and its name. -/
def Table.report (t : Table) : Report :=
  .record [("id", t.code), ("index", t.position), ("name", t.name)]

/-- A token with its parts and written forms. -/
def Token.report (t : Token) : List (String × Report) :=
  [("value", t.value), ("table", t.code), ("row", t.row), ("null", t.isNull), ("display", t.text),
   ("debug", t.listing), ("roundtrip", t.value)]

/-- An opcode with its encoding and its classes. -/
def OpCode.report (c : OpCode) : Report :=
  .record [("name", c.mnemonic), ("encoding", .numbers [c.encoding.1.toNat, c.encoding.2.toNat]),
    ("flow", c.flow.name), ("category", c.category.name), ("is_branch", c.isBranch)]

/-- What the attributes in a method's row say. -/
def rowReport (row : UInt32) : Report :=
  let access := Access.ofRow row
  let modifiers := Modifiers.ofRow row
  .record [("access", access.bits), ("modifiers", modifiers.bits),
    ("public", decide (access = .publicAccess)), ("static", modifiers.contains .staticBit),
    ("virtual", modifiers.contains .virtualBit)]

namespace Module

/-- The name of a type that may be gone. -/
def typeNameReport (m : Module) (t : TypeId) : Report := .optionalText (m.typeName? t)

/-- The name of a method that may be absent or gone. -/
def methodNameReport (m : Module) (i : Option MethodId) : Report :=
  .optionalText (i.bind m.methodName?)

/-- The name of the type that declares a field or property. -/
def ownerReport (m : Module) (member : Token) : Report :=
  .optionalText ((m.ownerOf? member).map (·.fullName))

/-- A method. -/
def methodReport (m : Module) (d : Method) : Report :=
  .record
    [("token", d.token), ("fullname", m.methodName d), ("name", d.name),
     ("access", d.access.bits), ("modifiers", d.modifiers.bits),
     ("is", .each .truth [d.isStatic, d.isPublic, d.isVirtual, d.isGeneric]),
     ("params", .each (fun p => .list [p.name, m.typeNameReport p.type]) d.params),
     ("returns", .ofOption m.typeNameReport d.returns), ("is_void", d.returns.isNone),
     ("generic", d.generics), ("attributes", .texts d.attributes), ("has_body", d.body.isSome)]

/-- A field. -/
def fieldReport (m : Module) (f : Field) : Report :=
  .record
    [("token", f.token), ("name", f.name), ("type", m.typeNameReport f.type),
     ("flags", f.flags.bits.toNat), ("owner", m.ownerReport f.token)]

/-- A property. -/
def propertyReport (m : Module) (p : Property) : Report :=
  .record
    [("token", p.token), ("name", p.name), ("type", m.typeNameReport p.type),
     ("getter", m.methodNameReport p.getter), ("setter", m.methodNameReport p.setter),
     ("attributes", .texts p.attributes), ("owner", m.ownerReport p.token)]

/-- An event. -/
def eventReport (m : Module) (e : Event) : Report :=
  .record
    [("token", e.token), ("name", e.name), ("type", m.typeNameReport e.type),
     ("add", m.methodNameReport e.add), ("remove", m.methodNameReport e.remove),
     ("public", m.isPublicEvent e)]

/-- The code of a method and its slots. -/
def bodyReport (m : Module) : Option Body → Report
  | none => .record [("body", .nothing)]
  | some b =>
    .record [("code", .texts (m.disassembly b.code)),
      ("locals", .each m.typeNameReport b.slots), ("init_locals", b.zeroed)]

/-- The registry: the types of the module's own, and all types with their tokens. -/
def registryReport (m : Module) : Report :=
  .record
    [("len", m.registry.size), ("empty", m.registry.size == 0), ("name", m.name),
     ("module_types", .texts (m.ownTypes.map (·.fullName))),
     ("all", .each (fun e => .list [e.1, m.typeNameReport e.2]) m.registry.toList)]

/-- An instruction, and whether it calls a method of the name if one is given. -/
def instructionReport (m : Module) (name : Option String) (i : Instruction) : Report :=
  let called (u : MethodUse) : Report := (m.method? u.method).elim "" (·.name)
  .record
    [("display", m.instructionText i), ("operand", m.operandText i.op.operand),
     ("flow", i.code.flow.name), ("label", i.label.number),
     ("target", .ofOption (fun l => l.number) i.op.target?),
     ("field", .optionalText (i.op.field?.map (·.name))),
     ("method", .ofOption called i.op.method?), ("is_call", .ofOption (m.callsNamed · i) name)]

/-- What is still known of a type through a reference that holds nothing. -/
def typeRefReport (m : Module) (t : TypeId) : Report :=
  let d := m.type? t
  .record
    [("valid", d.isSome), ("upgrade", d.isSome), ("name", .optionalText (d.map (·.name))),
     ("fullname", .optionalText (d.map (·.fullName))), ("token", .ofOption (fun d => d.token) d)]

/-- What is still known of a method through a reference that holds nothing. -/
def methodRefReport (m : Module) (i : MethodId) : Report :=
  let d := m.method? i
  .record
    [("upgrade", d.isSome), ("name", .optionalText (d.map (·.name))),
     ("fullname", .optionalText (d.map m.methodName)), ("debug", m.methodRefListing i)]

/-- Where a method of a name is found along the line of a type. -/
def inheritedReport (m : Module) (t : TypeId) (name : String) : Report :=
  let found (d : Method) : Report := .list [m.methodName d, d.token]
  .record
    [("owner", .ofOption m.typeNameReport (m.typeOfMethod? t name)),
     ("method", .ofOption found ((m.methodInLine? t name).bind m.method?))]

end Module

end SetterLoom
