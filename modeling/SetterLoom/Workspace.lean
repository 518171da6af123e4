import SetterLoom.Module.Retain
import SetterLoom.Weave.Plan

/-!
# Workspaces

Whoever builds a module step by step gives names to some of the entries, and to plans for weaving. What
has a name is held, so the module keeps it, and what a named plan refers to, while the name lasts. One
name may stand for entries of several kinds. Where an entry is asked for, a name of the workspace wins;
otherwise a type is found by its full name, and a member by a path: the name of a type, two colons,
and the name of the member, of which the type's first one of that name is meant.
-/

namespace SetterLoom
set_option autoImplicit false

/-- Entries by name, the newest name first. -/
abbrev Names (α : Type) := List (String × α)

namespace Names

variable {α : Type}

/-- The entry with a name. -/
def find? (names : Names α) (name : String) : Option α := names.lookup name

/-- Give a name to an entry; the name no longer stands for what it stood for. -/
def give (names : Names α) (name : String) (a : α) : Names α :=
  (name, a) :: names.filter (·.1 != name)

/-- Take a name away. -/
def drop (names : Names α) (name : String) : Names α := names.filter (·.1 != name)

end Names

/-- Split a path from its end: what was passed over is the member once two colons come before it. -/
def splitFromEnd : List Char → List Char → Option (String × String)
  | ':' :: ':' :: owner, member => some (.ofList owner.reverse, .ofList member)
  | c :: rest, member => splitFromEnd rest (c :: member)
  | [], _ => none

/-- Split a path at the last place where two colons stand together. -/
def splitPath? (path : String) : Option (String × String) := splitFromEnd path.toList.reverse []

/-- A module with names for some of its entries, and for plans to weave some of its types. -/
structure Workspace where
  module : Module
  types : Names TypeId := []
  methods : Names MethodId := []
  fields : Names Field := []
  properties : Names Property := []
  events : Names Event := []
  plans : Names TypePlan := []

namespace Workspace

/-! ## Finding entries -/

/-- The type with a name. -/
def typeNamed? (w : Workspace) (name : String) : Option TypeId :=
  (w.types.find? name).or (w.module.find? name)

/-- The member that a path leads to. -/
def member? {α : Type} (w : Workspace) (find : TypeDef → String → Option α) (path : String) :
    Option α := do
  let (owner, name) ← splitPath? path
  find (← w.module.type? (← w.typeNamed? owner)) name

/-- The method with a name or path. -/
def methodNamed? (w : Workspace) (name : String) : Option MethodId :=
  (w.methods.find? name).or (w.member? w.module.methodNamed? name)

/-- The field with a name or path. -/
def fieldNamed? (w : Workspace) (name : String) : Option Field :=
  (w.fields.find? name).or (w.member? TypeDef.field? name)

/-- The property with a name or path. -/
def propertyNamed? (w : Workspace) (name : String) : Option Property :=
  (w.properties.find? name).or (w.member? TypeDef.property? name)

/-- The event with a name or path. -/
def eventNamed? (w : Workspace) (name : String) : Option Event :=
  (w.events.find? name).or (w.member? (fun d n => d.events.find? (·.name == n)) name)

/-! ## Naming entries -/

/-- The name stands for an entry or a plan. -/
def hasName (w : Workspace) (name : String) : Bool :=
  (w.types.find? name).isSome || (w.methods.find? name).isSome || (w.fields.find? name).isSome
    || (w.properties.find? name).isSome || (w.events.find? name).isSome
    || (w.plans.find? name).isSome

/-- Take a name away from entries of every kind and from plans. -/
def drop (w : Workspace) (name : String) : Workspace :=
  { w with
    types := w.types.drop name
    methods := w.methods.drop name
    fields := w.fields.drop name
    properties := w.properties.drop name
    events := w.events.drop name
    plans := w.plans.drop name }

/-- The types that have a name or are the subject of a plan that has one. -/
def heldTypes (w : Workspace) : List TypeId := w.types.map (·.2) ++ w.plans.map (·.2.type)

/-- The methods that have a name, and those of properties, events and plans that have one. -/
def heldMethods (w : Workspace) : List MethodId :=
  w.methods.map (·.2) ++ w.properties.flatMap (·.2.methods) ++ w.events.flatMap (·.2.methods)
    ++ w.plans.flatMap (·.2.methods)

/-- Let go of the entries that neither the module nor a name holds; the given methods are held by
someone else. -/
def release (w : Workspace) (methods : List MethodId) : Workspace :=
  { w with module := w.module.retain w.heldTypes (w.heldMethods ++ methods) }

end Workspace

end SetterLoom
