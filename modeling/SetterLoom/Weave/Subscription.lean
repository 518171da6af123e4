import SetterLoom.Module.Declare
import SetterLoom.Weave.Announcement
import SetterLoom.Weave.Capability

/-!
# Following the changes inside a value

A property whose value announces its own changes is announced too whenever the value changes inside. The
type gets a method with the shape of a handler that announces the property as an assignment would, and
the setter subscribes it to each value that it stores and takes it from the value stored before.

* `length_subscriptionOps`: a subscription is one instruction longer if the value is of a value type.
-/

namespace SetterLoom
set_option autoImplicit false

/-- The method that announces the changes inside the value of a property. -/
def delegateName (property : String) : String := "<set_" ++ property ++ ">delegateMethod"

/-- The simple name of the type of the event that is subscribed to. -/
def handlerTypeName : String := "PropertyChangedEventHandler"

/-- The event to subscribe to, if the changes inside the property's value are followed at all. -/
def followedEvent? (m : Module) (options : Options) (type : TypeId) (p : Property)
    (cache : CapabilityCache) : Option Event × CapabilityCache :=
  if !options.childChanges then (none, cache)
  else
    let (holds, cache) := cache.ask m .childChanges type
    if !holds then (none, cache)
    else if (m.type? p.type).isNone then (none, cache)
    else
      let (announces, cache) := cache.ask m .observable p.type
      if !announces then (none, cache) else (m.publicEvent? p.type handlerTypeName, cache)

namespace BlockContext

/-- The code of the handler, without labels. -/
def handlerOps (ctx : BlockContext) : List Property → Drafting (List Op)
  | [] => return [.nop, .ret]
  | target :: rest => do
    let call ← ctx.invokerCall .current target
    return call ++ (← ctx.handlerOps rest)

/-- Write the code of the handler. -/
def writeHandler (ctx : BlockContext) : Drafting Unit := do
  let code ← Draft.labelled (← ctx.handlerOps ctx.property.targets)
  Draft.append code

/-- Declare the handler with the type. -/
def declareHandler (ctx : BlockContext) : Except Error (MethodId × Module) := do
  let object ← ctx.resolver.objectType ctx.module
  let arguments ← ctx.resolver.eventArgsType ctx.module
  let (result, draft) := ctx.writeHandler.run.run { body := {}, serial := ctx.module.serial }
  result
  let spec : MethodSpec :=
    { name := delegateName ctx.property.property.name
      params := [⟨"s", object⟩, ⟨"e", arguments⟩]
      body := some draft.body }
  return spec.declareOn ctx.type.type { ctx.module with serial := draft.serial }

/-- Unless the field is null, call an accessor of its event with a new handler, and go on behind
`last`. -/
def subscriptionOps (ctx : BlockContext) (field : Field)
    (equals handlerConstructor handler accessor : MethodId) (last : Label) : List Op :=
  let boxing := if (ctx.module.type? field.type).any (·.isValue) then [Op.box field.type] else []
  [.ldarg 0, .ldfld field] ++ boxing
    ++ [.ldnull, .call equals, .branch .brtrue last, .ldarg 0, .ldfld field, .ldarg 0,
      .ldftn handler, .newobj handlerConstructor, .callvirt accessor]

/-- The code that subscribes the handler, or takes it back, through an accessor of the event. -/
def subscriptionBlock (ctx : BlockContext) (field : Field) (handler accessor : MethodId) :
    Drafting (List Instruction) := do
  let equals ← ctx.resolver.objectEquals ctx.module
  let handlerConstructor ← ctx.resolver.handlerConstructor ctx.module
  let last := Label.drawn (← get).serial
  let nop ← Draft.labelled [.nop]
  let code ← Draft.labelled
    (ctx.subscriptionOps field equals handlerConstructor handler accessor last)
  return code ++ nop

/-- The position of the store that ends in front of an anchor. -/
def storePosition (code : Stream) (anchor : Nat) : Nat :=
  if (code[anchor - 1]?).any (·.code == .initobj) then anchor - 2 else anchor - 1

/-- Subscribe behind the first store and take back in front of it. -/
def weaveSubscription (ctx : BlockContext) (field : Field) (event : Event) (handler : MethodId)
    (anchor : Nat) : Drafting Unit := do
  let some add := event.add | throw (.missingAccessor event.name .add)
  let some remove := event.remove | throw (.missingAccessor event.name .remove)
  Draft.insert anchor (← ctx.subscriptionBlock field handler add)
  let store := storePosition (← get).body.code anchor
  Draft.insert store (← ctx.subscriptionBlock field handler remove)

theorem length_subscriptionOps (ctx : BlockContext) (field : Field)
    (equals handlerConstructor handler accessor : MethodId) (last : Label) :
    (ctx.subscriptionOps field equals handlerConstructor handler accessor last).length
      = if (ctx.module.type? field.type).any (·.isValue) then 12 else 11 := by
  unfold subscriptionOps
  dsimp only
  split <;> rfl

end BlockContext

end SetterLoom
