import SetterLoom.Module.Listing
import SetterLoom.Options
import SetterLoom.Weave.Draft

/-!
# Announcing a change

A change is announced by a call of the type's invoker for each target, behind a call of the target's
hook if the type has one and the setter does not call it already. The shapes that take the value
before and after read both through the target's getter: the value after right before the call, the
value before on entry to the setter. A target's value is read on entry once for all its calls, apart
from the two forms, boxed and not, that it may be wanted in.
-/

namespace SetterLoom
set_option autoImplicit false

/-- The method that a type may have for changes of a property. -/
def hookName (property : String) : String := "On" ++ property ++ "Changed"

/-- The property that holds the dirty flag. -/
def dirtyFlagProperty : String := "IsChanged"

/-- Where the value before the change comes from. -/
inductive BeforeSource where
  /-- It is read on entry. -/
  | entry
  /-- Nothing was changed, so it is the current value. -/
  | current
  deriving DecidableEq, Repr

/-- What a block of code is woven from. -/
structure BlockContext where
  options : Options
  resolver : Resolver
  module : Module
  type : TypePlan
  property : PropertyPlan

namespace BlockContext

/-! ## The values before and after -/

/-- The type of a target, which must still be there. -/
def targetType (ctx : BlockContext) (target : Property) : Drafting TypeDef :=
  match ctx.module.type? target.type with
  | some d => pure d
  | none => throw (.releasedType target.name)

/-- Read the current value of a target into a new slot, as an object if `boxed`. -/
def readValue (ctx : BlockContext) (target : Property) (boxed : Bool) :
    Drafting (List Op × UInt16) := do
  let some getter := target.getter | throw (.missingAccessor target.name .get)
  let d ← ctx.targetType target
  let slotType ← if boxed then ctx.resolver.objectType ctx.module else pure target.type
  let slot ← Draft.addSlot slotType
  let boxing := if boxed && d.isValue then [Op.box target.type] else []
  return ([.ldarg 0, .callvirt getter] ++ boxing ++ [.stloc slot], slot)

/-- The slot with the value before the change, given the slot with the current one. -/
def beforeSlot (ctx : BlockContext) (source : BeforeSource) (target : Property) (boxed : Bool)
    (after : UInt16) : Drafting UInt16 := do
  match source with
  | .current => return after
  | .entry =>
    match (← get).capture? target.name boxed with
    | some slot => return slot
    | none =>
      let (ops, slot) ← ctx.readValue target boxed
      Draft.addCapture ⟨target.name, boxed, slot⟩ ops
      return slot

/-- Read the value after the change, and give the slots of the values before and after. -/
def readBoth (ctx : BlockContext) (source : BeforeSource) (target : Property) (boxed : Bool) :
    Drafting (List Op × UInt16 × UInt16) := do
  let (ops, after) ← ctx.readValue target boxed
  let before ← ctx.beforeSlot source target boxed after
  return (ops, before, after)

/-! ## The calls -/

/-- The call of the invoker, at the target's type if the invoker has type parameters. -/
def callInvoker (ctx : BlockContext) (invoker : MethodId) (target : Property) : Drafting Op := do
  if (ctx.module.method? invoker).any (·.isGeneric) then
    let _ ← ctx.targetType target
    return .callvirtGeneric invoker [target.type]
  else return .callvirt invoker

/-- The code that announces a target with the values before and after. -/
def callWithValues (ctx : BlockContext) (source : BeforeSource) (target : Property) (boxed : Bool)
    (i : MethodId) : Drafting (List Op) := do
  let (ops, before, after) ← ctx.readBoth source target boxed
  let call ← ctx.callInvoker i target
  return ops ++ [.ldarg 0, .ldstr target.name, .ldloc before, .ldloc after, call]

/-- The code that announces a target. -/
def invokerCall (ctx : BlockContext) (source : BeforeSource) (target : Property) :
    Drafting (List Op) := do
  match ctx.type.invoker with
  | .simple i => return [.ldarg 0, .ldstr target.name, ← ctx.callInvoker i target]
  | .arguments i c =>
    return [.ldarg 0, .ldstr target.name, .newobj c, ← ctx.callInvoker i target]
  | .senderAndArguments i c =>
    return [.ldarg 0, .ldarg 0, .ldstr target.name, .newobj c, ← ctx.callInvoker i target]
  | .beforeAfter i => ctx.callWithValues source target true i
  | .typedBeforeAfter i => ctx.callWithValues source target false i

/-- The code that calls a hook. -/
def hookCall (ctx : BlockContext) (target : Property) (hook : ChangeHook) :
    Drafting (List Op) := do
  match hook with
  | .noArguments i => return [.ldarg 0, .callvirt i]
  | .beforeAfter i =>
    let (ops, before, after) ← ctx.readBoth .entry target true
    return ops ++ [.ldarg 0, .ldloc before, .ldloc after, .callvirt i]

/-- The hook to call for a target, unless the setter calls it already. -/
def hookFor? (ctx : BlockContext) (called : List String) (target : Property) :
    Option ChangeHook :=
  if ctx.options.changeHooks && !called.contains (hookName target.name) then
    ctx.type.hook? ctx.module (hookName target.name)
  else none

/-- The method that sets the dirty flag on a change of the property. -/
def dirtySetter? (ctx : BlockContext) : Option MethodId :=
  if ctx.options.dirtyFlag && ctx.property.property.name != dirtyFlagProperty
      && !ctx.property.property.hasAttribute Surface.keepsFlag then
    ctx.type.dirtySetter
  else none

/-- The code that sets the dirty flag. -/
def dirtyFlagOps (ctx : BlockContext) : List Op :=
  match ctx.dirtySetter? with
  | some i => [.ldarg 0, .ldcI4 1, .callvirt i]
  | none => []

/-- The code for one target: its hook, and its announcement unless the setter makes it already. -/
def targetBlock (ctx : BlockContext) (called : List String) (target : Property) :
    Drafting (List Op) := do
  let hook ← match ctx.hookFor? called target with
    | some hook => ctx.hookCall target hook
    | none => pure []
  if ctx.property.announces target.name then return hook
  let call ← ctx.invokerCall .entry target
  Draft.countCall
  return hook ++ call

/-- The code for all targets, one behind the other. -/
def targetBlocks (ctx : BlockContext) (called : List String) : List Property → Drafting (List Op)
  | [] => return []
  | target :: rest => do
    let block ← ctx.targetBlock called target
    return block ++ (← ctx.targetBlocks called rest)

/-- The code behind one store: the dirty flag is set first, then the targets are announced. -/
def changeBlock (ctx : BlockContext) (called : List String) : Drafting (List Op) := do
  return ctx.dirtyFlagOps ++ (← ctx.targetBlocks called ctx.property.targets)

/-- Put the code behind one store in its place. -/
def weaveAnchor (ctx : BlockContext) (called : List String) (anchor : Nat) : Drafting Unit := do
  let code ← Draft.labelled (← ctx.changeBlock called)
  Draft.insert anchor code

end BlockContext

end SetterLoom
