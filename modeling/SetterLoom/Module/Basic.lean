import SetterLoom.Metadata.Registry
import SetterLoom.Metadata.Type
import SetterLoom.Error

/-!
# Modules

A module holds every type and method made in it, the registry of its types, and the counters that
tokens and labels are drawn from. Types and methods are edited in place: a reference stays valid while
the entry behind it changes, and fails once the module has let the entry go.

The type that declares a field or property is fixed by the first type it is added to, and so is the
type that declares a method.

* `type?_addType_new`, `method?_addMethod_old`: what a lookup finds after an entry is added.
* `type?_updateType`, `method?_updateMethod`: what a lookup finds after an edit.
-/

namespace SetterLoom
set_option autoImplicit false

/-- The last row handed out in each table. -/
structure RowCounts where
  typeDef : UInt32 := 0
  field : UInt32 := 0
  methodDef : UInt32 := 0
  event : UInt32 := 0
  property : UInt32 := 0
  deriving DecidableEq, Repr

namespace RowCounts

/-- The last row handed out in a table. -/
def get (r : RowCounts) : Table → UInt32
  | .typeDef => r.typeDef
  | .field => r.field
  | .methodDef => r.methodDef
  | .event => r.event
  | .property => r.property

/-- Count one more row in a table. -/
def bump (r : RowCounts) : Table → RowCounts
  | .typeDef => { r with typeDef := r.typeDef + 1 }
  | .field => { r with field := r.field + 1 }
  | .methodDef => { r with methodDef := r.methodDef + 1 }
  | .event => { r with event := r.event + 1 }
  | .property => { r with property := r.property + 1 }

theorem get_bump (r : RowCounts) (t u : Table) :
    (r.bump t).get u = if u = t then r.get u + 1 else r.get u := by
  cases t <;> cases u <;> rfl

end RowCounts

/-- A module: its entries, its registry and its counters. Entries that were let go are absent. -/
structure Module where
  name : String
  types : Array (Option TypeDef) := #[]
  methods : Array (Option Method) := #[]
  registry : Registry := {}
  rows : RowCounts := {}
  /-- The declaring types of fields and properties, by the member's token. -/
  owners : TokenMap TypeId := .empty
  /-- The serial number of the next label drawn. -/
  serial : Nat := 0
  deriving Repr

namespace Module

/-! ## Lookups -/

/-- The type behind a reference. -/
def type? (m : Module) (t : TypeId) : Option TypeDef := (m.types[t.index]?).join

/-- The method behind a reference. -/
def method? (m : Module) (i : MethodId) : Option Method := (m.methods[i.index]?).join

/-- The full name of the type behind a reference. -/
def typeName? (m : Module) (t : TypeId) : Option String := (m.type? t).map (·.fullName)

/-- The type that declares a field or property. -/
def ownerOf? (m : Module) (member : Token) : Option TypeDef :=
  (m.owners.get? member).bind m.type?

/-- The type that declares a method. -/
def declarer? (m : Module) (d : Method) : Option TypeDef := d.owner.bind m.type?

/-- The full name of a method: its own name behind that of the declaring type, if it has one. -/
def methodName (m : Module) (d : Method) : String :=
  match m.declarer? d with
  | some owner => owner.fullName ++ "::" ++ d.name
  | none => d.name

/-- The full name of the method behind a reference. -/
def methodName? (m : Module) (i : MethodId) : Option String := (m.method? i).map m.methodName

/-- The first method of a name that a type declares itself. -/
def methodNamed? (m : Module) (t : TypeDef) (name : String) : Option MethodId :=
  t.methods.find? fun i => (m.method? i).any (·.name == name)

/-- The default of a variable whose type may be gone. -/
def defaultOf (m : Module) (t : TypeId) : Value :=
  match m.type? t with
  | some d => d.default
  | none => .null

/-- The registered type of a full name. -/
def find? (m : Module) (fullName : String) : Option TypeId := m.registry.find? fullName

/-- A type of the runtime surface, which code cannot do without. -/
def require (m : Module) (fullName : String) : Except Error TypeId :=
  match m.find? fullName with
  | some t => .ok t
  | none => .error (.unresolved fullName)

/-- The registered types that the module defines itself, in token order. -/
def ownTypes (m : Module) : List TypeDef :=
  (m.registry.types.values.filterMap m.type?).filter fun t => !t.external

/-! ## Edits -/

/-- Edit a type. -/
def updateType (m : Module) (t : TypeId) (f : TypeDef → TypeDef) : Module :=
  { m with types := m.types.modify t.index (Option.map f) }

/-- Edit a method. -/
def updateMethod (m : Module) (i : MethodId) (f : Method → Method) : Module :=
  { m with methods := m.methods.modify i.index (Option.map f) }

/-- Replace the body of a method. -/
def setBody (m : Module) (i : MethodId) (body : Option Body) : Module :=
  m.updateMethod i fun d => { d with body := body }

/-- Give a method one more attribute. -/
def addAttribute (m : Module) (i : MethodId) (name : String) : Module :=
  m.updateMethod i fun d => { d with attributes := d.attributes ++ [name] }

/-- Draw the next token of a table. -/
def drawToken (m : Module) (table : Table) : Token × Module :=
  (.ofRow table (m.rows.get table + 1), { m with rows := m.rows.bump table })

/-- Label code with labels of the supply. -/
def drawLabels (m : Module) (ops : List Op) : List Instruction × Module :=
  (Instruction.drawFrom m.serial ops, { m with serial := m.serial + ops.length })

/-- Add a type. -/
def addType (m : Module) (d : TypeDef) : TypeId × Module :=
  (⟨m.types.size⟩, { m with types := m.types.push (some d) })

/-- Add a method. -/
def addMethod (m : Module) (d : Method) : MethodId × Module :=
  (⟨m.methods.size⟩, { m with methods := m.methods.push (some d) })

/-- Register a type under its token and full name. -/
def register (m : Module) (t : TypeId) : Module :=
  match m.type? t with
  | some d => { m with registry := m.registry.insert d.token d.fullName t }
  | none => m

/-- List a method with a type, which declares it unless another type already does. -/
def attachMethod (m : Module) (t : TypeId) (i : MethodId) : Module :=
  (m.updateMethod i fun d => { d with owner := d.owner.or (some t) }).updateType t fun d =>
    { d with methods := d.methods ++ [i] }

/-- List a field with a type, which declares it unless another type already does. -/
def attachField (m : Module) (t : TypeId) (f : Field) : Module :=
  { m with owners := m.owners.insertNew f.token t }.updateType t fun d =>
    { d with fields := d.fields ++ [f] }

/-- List a property with a type, which declares it unless another type already does. -/
def attachProperty (m : Module) (t : TypeId) (p : Property) : Module :=
  { m with owners := m.owners.insertNew p.token t }.updateType t fun d =>
    { d with properties := d.properties ++ [p] }

/-- List an event with a type. -/
def attachEvent (m : Module) (t : TypeId) (e : Event) : Module :=
  m.updateType t fun d => { d with events := d.events ++ [e] }

/-- List an interface with a type. -/
def attachInterface (m : Module) (t interface : TypeId) : Module :=
  m.updateType t fun d => { d with interfaces := d.interfaces ++ [interface] }

/-- Set the base of a type that never had one; says whether it did. -/
def setBase (m : Module) (t base : TypeId) : Bool × Module :=
  match m.type? t with
  | some d =>
    if d.base.isNone then (true, m.updateType t fun d => { d with base := some base })
    else (false, m)
  | none => (false, m)

/-! ## What lookups find after an edit -/

theorem type?_of_types {m m' : Module} (h : m'.types = m.types) (t : TypeId) : m'.type? t = m.type? t := by
  rw [type?, h, type?]

theorem type?_addType_new (m : Module) (d : TypeDef) : (m.addType d).2.type? (m.addType d).1 = some d := by
  simp [addType, type?]

theorem method?_addMethod_old (m : Module) (d : Method) {i : MethodId}
    (h : i.index < m.methods.size) : (m.addMethod d).2.method? i = m.method? i := by
  simp [addMethod, method?, Array.getElem?_push, Nat.ne_of_lt h]

private theorem join_modify {α : Type} (a : Array (Option α)) (i j : Nat) (f : α → α) :
    ((a.modify i (Option.map f))[j]?).join
      = if i = j then ((a[j]?).join).map f else (a[j]?).join := by
  rw [Array.getElem?_modify]
  split
  · cases h : a[j]? with
    | none => simp
    | some o => cases o <;> simp
  · rfl

theorem type?_updateType (m : Module) (t u : TypeId) (f : TypeDef → TypeDef) :
    (m.updateType t f).type? u = if t = u then (m.type? u).map f else m.type? u := by
  have h : (t.index = u.index) = (t = u) := by cases t; cases u; simp
  simp only [updateType, type?, join_modify, h]

theorem method?_updateMethod (m : Module) (i j : MethodId) (f : Method → Method) :
    (m.updateMethod i f).method? j = if i = j then (m.method? j).map f else m.method? j := by
  have h : (i.index = j.index) = (i = j) := by cases i; cases j; simp
  simp only [updateMethod, method?, join_modify, h]

theorem method?_setBody {m : Module} {i : MethodId} {d : Method} (h : m.method? i = some d)
    (body : Option Body) : (m.setBody i body).method? i = some { d with body } := by
  rw [setBody, method?_updateMethod, if_pos rfl, h, Option.map_some]

theorem method?_setBody_of_ne (m : Module) {i j : MethodId} (h : i ≠ j) (body : Option Body) :
    (m.setBody i body).method? j = m.method? j := by
  rw [setBody, method?_updateMethod, if_neg h]

@[simp] theorem method?_updateType (m : Module) (t : TypeId) (i : MethodId)
    (f : TypeDef → TypeDef) : (m.updateType t f).method? i = m.method? i := rfl

end Module

end SetterLoom
