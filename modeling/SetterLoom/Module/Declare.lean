import SetterLoom.Module.Hierarchy

/-!
# Declaring methods and types

A description of a method or type is turned into an entry of a module. A property that is declared
with a type gets the members a compiler would give it: a private backing field, a getter that loads it
and a setter that stores its argument into it.

A type is registered before its members are declared, and a member that cannot be declared ends the
declaration there; the type stays as it is by then.
-/

namespace SetterLoom
set_option autoImplicit false

/-- A description of a method. -/
structure MethodSpec where
  name : String
  access : Access := .privateAccess
  modifiers : Modifiers := .hideBySig
  params : List Param := []
  returns : Option TypeId := none
  generics : Nat := 0
  attributes : List String := []
  body : Option Body := none

namespace MethodSpec

/-- The method can be called from anywhere. -/
def openToAll (s : MethodSpec) : MethodSpec := { s with access := .publicAccess }

/-- The method has the modifiers too. -/
def withModifiers (s : MethodSpec) (mods : Modifiers) : MethodSpec :=
  { s with modifiers := s.modifiers.union mods }

/-- The method has one more parameter. -/
def withParam (s : MethodSpec) (name : String) (type : TypeId) : MethodSpec :=
  { s with params := s.params ++ [⟨name, type⟩] }

/-- Add the method to the module; no type declares it. -/
def declare (s : MethodSpec) (m : Module) : MethodId × Module :=
  let (token, m) := m.drawToken .methodDef
  m.addMethod
    { token, name := s.name, access := s.access, modifiers := s.modifiers, params := s.params,
      returns := s.returns, generics := s.generics, attributes := s.attributes, body := s.body }

/-- Add the method to the module and list it with a type. -/
def declareOn (s : MethodSpec) (t : TypeId) (m : Module) : MethodId × Module :=
  let (i, m) := s.declare m
  (i, m.attachMethod t i)

end MethodSpec

/-- How a property gets and sets its value. -/
inductive Accessors where
  /-- Through a backing field. -/
  | auto
  /-- Through a backing field, with a setter of its own. -/
  | custom (setter : Field → Body)
  /-- Without a field. -/
  | computed (getter : Body) (setter : Option Body)

/-- A description of a property. -/
structure PropertySpec where
  name : String
  type : TypeId
  accessors : Accessors
  attributes : List String := []

/-- A description of a member. -/
inductive MemberSpec where
  | field (name : String) (type : TypeId)
  | property (spec : PropertySpec)
  | method (spec : MethodSpec)
  /-- The event that announces changed properties, with accessors that the runtime supplies. -/
  | changedEvent

/-- What kind of type is declared. -/
inductive TypeKind where
  | classType
  | valueType
  | interfaceType
  deriving DecidableEq, Repr

/-- The flavor of a declared type. -/
def TypeKind.flavor : TypeKind → Flavor
  | .classType => .classType
  | .valueType => .valueType
  | .interfaceType => .interfaceType

/-- A description of a type. -/
structure TypeSpec where
  space : String
  name : String
  kind : TypeKind := .classType
  base : Option TypeId := none
  interfaces : List TypeId := []
  attributes : List String := []
  members : List MemberSpec := []

namespace MemberSpec

/-- Give the first property of a list of members one more attribute. -/
def markFirst (mark : String) : List MemberSpec → List MemberSpec
  | [] => []
  | .property p :: rest => .property { p with attributes := p.attributes ++ [mark] } :: rest
  | other :: rest => other :: markFirst mark rest

/-- Give the last property of a list of members one more attribute, if there is a property. -/
def markLast (mark : String) (members : List MemberSpec) : List MemberSpec :=
  (markFirst mark members.reverse).reverse

end MemberSpec

/-- Declarations change a module, also when they fail. -/
abbrev Declare := ExceptT Error (StateM Module)

namespace Declare

/-- A step that cannot fail. -/
def step {α : Type} (f : Module → α × Module) : Declare α := fun m =>
  let (a, m) := f m
  (.ok a, m)

/-- A change of the module. -/
def change (f : Module → Module) : Declare Unit := fun m => (.ok (), f m)

/-- A type of the runtime surface. -/
def require (fullName : String) : Declare TypeId := fun m => (m.require fullName, m)

/-- A method without owner. -/
def method (s : MethodSpec) : Declare MethodId := step s.declare

/-- A method listed with a type. -/
def methodOn (t : TypeId) (s : MethodSpec) : Declare MethodId := step (s.declareOn t)

/-- A field listed with a type. -/
def fieldOn (t : TypeId) (name : String) (flags : FieldFlags) (type : TypeId) : Declare Field := do
  let token ← step (·.drawToken .field)
  let f : Field := ⟨token, name, flags, type⟩
  change (·.attachField t f)
  return f

/-- Code labelled from the module's supply, in a body without slots. -/
def bodyOf (ops : List Op) : Declare Body := do
  return .ofCode (← step (·.drawLabels ops))

/-- A public accessor of a property. -/
def accessor (name : String) : MethodSpec :=
  ({ name } : MethodSpec).openToAll.withModifiers .specialName

/-- The getter of a property. -/
def getterOn (t : TypeId) (property : String) (type : TypeId) (body : Body) : Declare MethodId :=
  methodOn t { accessor (Surface.getter property) with returns := some type, body := some body }

/-- The setter of a property. -/
def setterOn (t : TypeId) (property : String) (type : TypeId) (body : Body) : Declare MethodId :=
  methodOn t
    { (accessor (Surface.setter property)).withParam "value" type with body := some body }

/-- The accessors of a property with a backing field. -/
def backedAccessors (t : TypeId) (name : String) (type : TypeId)
    (setter : Field → Declare Body) : Declare (MethodId × MethodId) := do
  let f ← fieldOn t (Field.backingName name) .privateBit type
  let get ← getterOn t name type (← bodyOf [.ldarg 0, .ldfld f, .ret])
  let set ← setterOn t name type (← setter f)
  return (get, set)

/-- The setter that stores its argument. -/
def storeBody (f : Field) : Declare Body :=
  bodyOf [.ldarg 0, .ldarg 1, .stfld f, .ret]

/-- A property with its accessors, listed with a type. -/
def propertyOn (t : TypeId) (p : PropertySpec) : Declare Property := do
  let (getter, setter) ← match p.accessors with
    | .auto => do
      let (get, set) ← backedAccessors t p.name p.type storeBody
      pure (get, some set)
    | .custom setter => do
      let (get, set) ← backedAccessors t p.name p.type fun f => pure (setter f)
      pure (get, some set)
    | .computed getter setter => do
      let get ← getterOn t p.name p.type getter
      match setter with
      | some body => pure (get, some (← setterOn t p.name p.type body))
      | none => pure (get, none)
  let token ← step (·.drawToken .property)
  let property : Property := ⟨token, p.name, p.type, some getter, setter, p.attributes⟩
  change (·.attachProperty t property)
  return property

/-- The accessor of an event: it takes a handler, and the runtime supplies its body. -/
def eventAccessor (name : String) (handler : TypeId) (mods : Modifiers) : MethodSpec :=
  ((accessor name).withModifiers mods).withParam "value" handler

/-- The changed event with its accessors, listed with a type. -/
def eventOn (t handler : TypeId) (mods : Modifiers) : Declare Event := do
  let add ← methodOn t (eventAccessor (Surface.adder Surface.changedEvent) handler mods)
  let remove ← methodOn t (eventAccessor (Surface.remover Surface.changedEvent) handler mods)
  let token ← step (·.drawToken .event)
  let event : Event := ⟨token, Surface.changedEvent, handler, some add, some remove⟩
  change (·.attachEvent t event)
  return event

/-- The changed event with its field and accessors, listed with a type. -/
def changedEventOn (t : TypeId) : Declare Event := do
  let handler ← require Surface.eventHandler
  let _ ← fieldOn t Surface.changedEvent .privateBit handler
  eventOn t handler .virtualBit

/-- A member, listed with a type. -/
def memberOn (t : TypeId) : MemberSpec → Declare Unit
  | .field name type => discard (fieldOn t name .privateBit type)
  | .property p => discard (propertyOn t p)
  | .method s => discard (methodOn t s)
  | .changedEvent => discard (changedEventOn t)

/-- A type without members, registered under a new token. -/
def bareType (space name : String) (flavor : Flavor) (external : Bool) (base : Option TypeId) :
    Declare TypeId := do
  let token ← step (·.drawToken .typeDef)
  let t ← step (·.addType { token, space, name, flavor, external, base })
  change (·.register t)
  return t

end Declare

/-! ## Inherited interfaces -/

namespace Module

/-- The interfaces reached from the pending ones, each full name once: an interface is followed by
those it inherits, the last one first. -/
def interfacesFrom (m : Module) : Nat → List TypeId → List String → List TypeId
  | 0, _, _ => []
  | _ + 1, [], _ => []
  | bound + 1, i :: pending, listed =>
    match m.type? i with
    | none => m.interfacesFrom bound pending listed
    | some d =>
      if listed.contains d.fullName then m.interfacesFrom bound pending listed
      else i :: m.interfacesFrom bound (d.interfaces.reverse ++ pending) (d.fullName :: listed)

/-- The number of interfaces listed by all types together. -/
def interfaceEntries (m : Module) : Nat :=
  (m.types.toList.flatMap fun t => t.elim [] (·.interfaces)).length

/-- The given interfaces and all they inherit. Each full name is followed once, so no more entries
are visited than are given and listed. -/
def allInterfaces (m : Module) (given : List TypeId) : List TypeId :=
  m.interfacesFrom (given.length + m.interfaceEntries + 1) given []

end Module

namespace TypeSpec

/-- The base type: the given one, else what the kind of type derives from. -/
def baseType (s : TypeSpec) : Declare (Option TypeId) :=
  match s.base, s.kind with
  | some b, _ => pure (some b)
  | none, .interfaceType => pure none
  | none, .valueType => some <$> Declare.require Surface.valueType
  | none, .classType => some <$> Declare.require Surface.object

/-- Add the type and its members to the module. -/
def declare (s : TypeSpec) : Declare TypeId := do
  let base ← s.baseType
  let t ← Declare.bareType s.space s.name s.kind.flavor false base
  Declare.change fun m =>
    let interfaces := m.allInterfaces s.interfaces
    m.updateType t fun d => { d with interfaces, attributes := s.attributes }
  s.members.forM (Declare.memberOn t)
  return t

end TypeSpec

end SetterLoom
