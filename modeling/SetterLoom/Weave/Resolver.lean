import SetterLoom.Module.Hierarchy

/-!
# References that woven code needs

Woven code compares with null, makes event arguments and subscribes handlers. Where the types and
members for this come from is up to a resolver; the usual one takes them from the module's own
runtime surface, the first member of the name wherever there are several. To see how a pass fails, some
of its lookups can be refused.
-/

namespace SetterLoom
set_option autoImplicit false

/-- How the references are found. -/
structure Resolver where
  /-- The root of all types, for boxed values. -/
  objectType : Module → Except Error TypeId
  /-- The static comparison of two objects. -/
  objectEquals : Module → Except Error MethodId
  /-- The constructor of the changed event's handlers. -/
  handlerConstructor : Module → Except Error MethodId
  /-- The type of the changed event's arguments. -/
  eventArgsType : Module → Except Error TypeId
  /-- The constructor of the changed event's arguments. -/
  eventArgsConstructor : Module → Except Error MethodId

namespace Resolver

/-- The first constructor of a type of the runtime surface. -/
def constructorOf (typeName : String) (m : Module) : Except Error MethodId := do
  let t ← m.require typeName
  match (m.type? t).bind fun d => m.methodNamed? d Surface.constructor with
  | some i => .ok i
  | none => .error (.unresolved (typeName ++ "::" ++ Surface.constructor))

/-- The comparison is the first method of its name, and it has to be static with two parameters. -/
def equalsOf (m : Module) : Except Error MethodId := do
  let object ← m.require Surface.object
  let found := (m.methodInLine? object Surface.equals).filter fun i =>
    (m.method? i).any fun d => d.isStatic && d.params.length == 2
  match found with
  | some i => .ok i
  | none => .error (.unresolved (Surface.object ++ "::" ++ Surface.equals))

/-- The resolver that takes everything from the module. -/
def standard : Resolver where
  objectType := fun m => m.require Surface.object
  objectEquals := equalsOf
  handlerConstructor := constructorOf Surface.eventHandler
  eventArgsType := fun m => m.require Surface.eventArgs
  eventArgsConstructor := constructorOf Surface.eventArgs

/-- What a lookup answers when it is among the refused ones, whatever it would find. -/
def refuse {α : Type} (refused : List String) (lookup : String) (find : Module → Except Error α)
    (m : Module) : Except Error α :=
  if refused.contains lookup then .error (.unresolved ("refused " ++ lookup)) else find m

/-- The usual resolver without the lookups of the given names. -/
def refusing (refused : List String) : Resolver where
  objectType := refuse refused "object_type" standard.objectType
  objectEquals := refuse refused "object_equals" standard.objectEquals
  handlerConstructor := refuse refused "handler_constructor" standard.handlerConstructor
  eventArgsType := refuse refused "event_args_type" standard.eventArgsType
  eventArgsConstructor := refuse refused "event_args_constructor" standard.eventArgsConstructor

end Resolver

end SetterLoom
