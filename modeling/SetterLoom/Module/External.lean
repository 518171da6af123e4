import SetterLoom.Module.Declare

/-!
# External types

A module that compiled code lives in refers to the types of the runtime surface. They are external,
and most of their members have no body: the machine answers for them.
-/

namespace SetterLoom
set_option autoImplicit false

namespace Declare

/-- A type that the module only refers to. -/
def externalType (space name : String) (flavor : Flavor) (base : Option TypeId) : Declare TypeId :=
  bareType space name flavor true base

/-- A public constructor. -/
def constructorOn (t : TypeId) (params : List Param) (body : Option Body) : Declare MethodId :=
  methodOn t { accessor Surface.constructor with params, body }

/-- The arguments of the changed event, which carry the property's name. -/
def eventArgs (object string : TypeId) : Declare TypeId := do
  let args ← externalType "System.ComponentModel" "PropertyChangedEventArgs" .classType object
  let name ← fieldOn args Surface.nameField (.union .privateBit .initOnly) string
  let _ ← constructorOn args [⟨Surface.nameField, string⟩] (← storeBody name)
  let body ← bodyOf [.ldarg 0, .ldfld name, .ret]
  let _ ← methodOn args
    { (accessor "get_PropertyName").withModifiers .virtualBit with
      returns := some string, body := some body }
  return args

/-- The delegate type of the changed event's handlers. -/
def eventHandler (object nativeInt delegate args : TypeId) : Declare TypeId := do
  let handler ←
    externalType "System.ComponentModel" "PropertyChangedEventHandler" .classType delegate
  let _ ← constructorOn handler [⟨"object", object⟩, ⟨"method", nativeInt⟩] none
  let _ ← methodOn handler
    { ({ name := Surface.invoke } : MethodSpec).openToAll.withModifiers .virtualBit with
      params := [⟨"sender", object⟩, ⟨"e", args⟩] }
  return handler

/-- The types of the runtime surface. -/
def runtimeSurface : Declare Unit := do
  let object ← externalType "System" "Object" .object none
  let valueType ← externalType "System" "ValueType" .classType object
  let string ← externalType "System" "String" .string object
  let boolean ← externalType "System" "Boolean" .boolean valueType
  let _ ← externalType "System" "Int32" .int32 valueType
  let nativeInt ← externalType "System" "IntPtr" .nativeInt valueType
  let _ ← externalType "System" "Void" .void none
  let delegate ← externalType "System" "MulticastDelegate" .classType object
  let _ ← constructorOn object [] (some (← bodyOf [.ret]))
  let _ ← methodOn object
    { ({ name := Surface.equals } : MethodSpec).openToAll.withModifiers .staticBit with
      params := [⟨"objA", object⟩, ⟨"objB", object⟩], returns := some boolean }
  let args ← eventArgs object string
  let handler ← eventHandler object nativeInt delegate args
  let notify ← externalType "System.ComponentModel" "INotifyPropertyChanged" .interfaceType none
  let _ ← eventOn notify handler (.union .abstractBit .virtualBit)
  let content ← externalType "PropertyChanged" "INotifyPropertyChangedContent" .interfaceType none
  change (·.attachInterface content notify)

end Declare

namespace Module

/-- A module without any type. -/
def bare (name : String) : Module := { name }

/-- A module that refers to the runtime surface. -/
def withSurface (name : String) : Module := (Declare.runtimeSurface.run (bare name)).2

end Module

end SetterLoom
