import SetterLoom.Metadata.Method
import SetterLoom.Machine.Value

/-!
# Types

A type lists its members in declaration order; a member is found by its name, and the first one of a
name hides the others.
-/

namespace SetterLoom
set_option autoImplicit false

/-- A property: a name for a getter and a setter. -/
structure Property where
  token : Token
  name : String
  type : TypeId
  getter : Option MethodId
  setter : Option MethodId
  attributes : List String := []
  deriving DecidableEq, Repr

namespace Property

/-- The property carries an attribute. -/
def hasAttribute (p : Property) (name : String) : Bool := p.attributes.contains name

/-- The methods that the property owns. -/
def methods (p : Property) : List MethodId := p.getter.toList ++ p.setter.toList

end Property

/-- An event: a name for the methods that add and remove a handler. -/
structure Event where
  token : Token
  name : String
  type : TypeId
  add : Option MethodId
  remove : Option MethodId
  deriving DecidableEq, Repr

/-- The methods that the event owns. -/
def Event.methods (e : Event) : List MethodId := e.add.toList ++ e.remove.toList

/-- What a type is made of, which decides its values. -/
inductive Flavor where
  | void
  | boolean
  | int32
  | nativeInt
  | string
  | object
  | classType
  | valueType
  | interfaceType
  deriving DecidableEq, Repr

namespace Flavor

/-- Every flavor. -/
def all : List Flavor :=
  [.void, .boolean, .int32, .nativeInt, .string, .object, .classType, .valueType, .interfaceType]

/-- The name of a flavor. -/
def name : Flavor → String
  | .void => "Void"
  | .boolean => "Boolean"
  | .int32 => "I4"
  | .nativeInt => "I"
  | .string => "String"
  | .object => "Object"
  | .classType => "Class"
  | .valueType => "ValueType"
  | .interfaceType => "Interface"

/-- The flavor with a name. -/
def ofName? (name : String) : Option Flavor := all.find? (·.name == name)

/-- Values of the type are stored in place and not referred to. -/
def isValue : Flavor → Bool
  | .boolean | .int32 | .nativeInt | .valueType => true
  | _ => false

end Flavor

/-- A type declaration. The type is `external` if the module only refers to it. -/
structure TypeDef where
  token : Token
  space : String
  name : String
  flavor : Flavor
  external : Bool
  base : Option TypeId := none
  interfaces : List TypeId := []
  fields : List Field := []
  methods : List MethodId := []
  properties : List Property := []
  events : List Event := []
  attributes : List String := []
  deriving DecidableEq, Repr

namespace TypeDef

/-- The name with the namespace in front, if there is one. -/
def fullName (t : TypeDef) : String :=
  if t.space.isEmpty then t.name else t.space ++ "." ++ t.name

/-- Values of the type are stored in place. -/
def isValue (t : TypeDef) : Bool := t.flavor.isValue

/-- The first field of a name. -/
def field? (t : TypeDef) (name : String) : Option Field := t.fields.find? (·.name == name)

/-- The first property of a name. -/
def property? (t : TypeDef) (name : String) : Option Property :=
  t.properties.find? (·.name == name)

/-- The type carries an attribute. -/
def hasAttribute (t : TypeDef) (name : String) : Bool := t.attributes.contains name

/-- The value of a variable of the type that nothing was stored into. -/
def default (t : TypeDef) : Value :=
  match t.flavor with
  | .boolean | .int32 | .nativeInt => .int 0
  | .valueType => .struct t.token
  | _ => .null

/-- The methods that the type and its members own. -/
def ownedMethods (t : TypeDef) : List MethodId :=
  t.methods ++ t.properties.flatMap Property.methods ++ t.events.flatMap Event.methods

end TypeDef

end SetterLoom
