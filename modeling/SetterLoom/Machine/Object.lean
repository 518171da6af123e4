import SetterLoom.Machine.State
import SetterLoom.Module.Listing

/-!
# Objects at work

Making an object runs its constructor, and calling a delegate runs the methods of its list in order. How a
method is run is given as a parameter, so nothing here depends on how deep calls are nested.

A delegate is not run through a constructor of its own: it is made from a receiver and a pointer to a
method.
-/

namespace SetterLoom
set_option autoImplicit false

/-- A way to call a method with a receiver and arguments. -/
abbrev Call := MethodId → Option Value → List Value → Action Value

namespace Action

/-- The type that declares a method. -/
def constructedType (m : Module) (i : MethodId) : Action (TypeId × TypeDef) :=
  let owner := (m.method? i).bind fun d => d.owner.bind fun t => (m.type? t).map (t, ·)
  match owner with
  | some owner => pure owner
  | none => fault (.detachedConstructor (m.methodText i))

/-- The delegate of a type for a receiver and a pointer to a method. -/
def makeDelegate (type : TypeDef) (arguments : List Value) : Action Value :=
  match arguments with
  | [target, .function method] => .ref <$> alloc (.delegate type.token [⟨target.ref?, method⟩])
  | _ => fault (.delegateArguments type.fullName)

/-- Make an object with a constructor. -/
def construct (m : Module) (call : Call) (i : MethodId) (arguments : List Value) :
    Action Value := do
  let (t, d) ← constructedType m i
  if m.isDelegate t then makeDelegate d arguments
  else
    let object ← allocObject d.token
    let _ ← call i (some object) arguments
    return object

/-- Call the methods of a list in order, all with the same arguments. -/
def invokeEach (call : Call) (arguments : List Value) : List Invocation → Action Unit
  | [] => return ()
  | invocation :: rest => do
    let i ← known invocation.method
    let _ ← call i (invocation.target.map .ref) arguments
    invokeEach call arguments rest

/-- Call a delegate; the list is the one it has when the call starts. -/
def invokeDelegate (call : Call) (r : HeapRef) (arguments : List Value) : Action Unit := do
  match ← heap (·.get r) with
  | .delegate _ invocations => invokeEach call arguments invocations
  | _ => fault (.notADelegate r)

/-- The method that a virtual call of a method runs on an object: the one of that name which the
object's type has or inherits, if it takes as many parameters and a receiver, else the method
itself. -/
def dispatch (m : Module) (r : HeapRef) (i : MethodId) (d : Method) : Action MethodId := do
  match ← runtimeType m r with
  | none => return i
  | some t =>
    let found := (m.methodInLine? t d.name).filter fun j =>
      (m.method? j).any fun c => c.params.length == d.params.length && !c.isStatic
    return found.getD i

end Action

end SetterLoom
