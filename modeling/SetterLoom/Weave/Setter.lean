import SetterLoom.Weave.Subscription

/-!
# Weaving a setter

A setter is woven at its anchors: the positions behind the stores into the backing field, or the
position of the last return if there is no such store. All positions are found in the unedited body, and
the edits are made from the last anchor to the first, so an edit moves no position that is still to be
used.

* `anchors_ne_nil`: there is always an anchor.
* `fst_anchors_of_stores`: the anchors are the stores if there are any.
-/

namespace SetterLoom
set_option autoImplicit false

/-- What weaving a setter did. -/
structure WovenSetter where
  /-- The anchors in the unedited body. -/
  anchors : List Nat
  /-- The number of calls of the invoker that were woven into the setter. -/
  notifications : Nat
  /-- The handler that was declared for changes inside the value. -/
  handler : Option MethodId
  deriving DecidableEq, Repr

/-- What weaving changes: the module, and the answers about capabilities. -/
structure Workpiece where
  module : Module
  capabilities : CapabilityCache := {}

/-- Weaving changes the workpiece, also when it fails. -/
abbrev Weaving := ExceptT Error (StateM Workpiece)

namespace PropertyPlan

/-- The anchors of a body, and whether they are stores. -/
def anchors (plan : PropertyPlan) (code : Stream) : List Nat × Bool :=
  match plan.backing with
  | none => ([code.lastReturn], false)
  | some field =>
    match code.stores field.name with
    | [] => ([code.lastReturn], false)
    | stores => (stores, true)

theorem anchors_ne_nil (plan : PropertyPlan) (code : Stream) : (plan.anchors code).1 ≠ [] := by
  unfold anchors
  split
  · simp
  · split
    · simp
    · rename_i h
      exact fun hnil => h hnil

theorem fst_anchors_of_stores {plan : PropertyPlan} {code : Stream} {field : Field}
    (hf : plan.backing = some field) (hs : code.stores field.name ≠ []) :
    plan.anchors code = (code.stores field.name, true) := by
  unfold anchors
  rw [hf]
  cases h : code.stores field.name with
  | nil => exact absurd h hs
  | cons first rest => simp [h]

end PropertyPlan

namespace Weaving

/-- Edit the body of a method in place. -/
def edit {α : Type} (method : MethodId) (body : Body) (steps : Drafting α) :
    Weaving (α × Draft) := fun w =>
  let (result, draft) := steps.run.run { body, serial := w.module.serial }
  (result.map (·, draft),
    { w with module := { w.module.setBody method (some draft.body) with serial := draft.serial } })

/-- The event that the handler of a property is subscribed to, with the backing field. -/
def subscription? (options : Options) (type : TypePlan) (plan : PropertyPlan)
    (fromStores : Bool) : Weaving (Option (Field × Event)) := fun w =>
  match plan.backing, fromStores with
  | some field, true =>
    let (event, capabilities) :=
      followedEvent? w.module options type.type plan.property w.capabilities
    (.ok (event.map (field, ·)), { w with capabilities })
  | _, _ => (.ok none, w)

/-- Declare the handler of a property. -/
def handler (ctx : Module → BlockContext) : Weaving MethodId := fun w =>
  match (ctx w.module).declareHandler with
  | .ok (i, module) => (.ok i, { w with module })
  | .error e => (.error e, w)

/-- The edits of a body: the blocks at the anchors, last one first, then the subscription, and at
the very start the code that reads the captures. -/
def edits (ctx : BlockContext) (called : List String) (anchors : List Nat)
    (subscription : Option (Field × Event × MethodId)) : Drafting Unit := do
  anchors.reverse.forM (ctx.weaveAnchor called)
  match subscription, anchors with
  | some (field, event, handler), first :: _ => ctx.weaveSubscription field event handler first
  | _, _ => pure ()
  Draft.prependPrologue

/-- Weave the setter of a property. -/
def setter (options : Options) (resolver : Resolver) (type : TypePlan) (plan : PropertyPlan) :
    Weaving WovenSetter := do
  let some setter := plan.property.setter | throw (.missingAccessor plan.property.name .set)
  let m := (← get).module
  let some body := (m.method? setter).bind (·.body)
    | throw (.missingBody (m.methodText setter))
  let ctx (module : Module) : BlockContext := ⟨options, resolver, module, type, plan⟩
  let (anchors, fromStores) := plan.anchors body.code
  let called := (plan.targets.map (hookName ·.name)).filter (m.containsCallTo body.code)
  let subscription ← match ← subscription? options type plan fromStores with
    | some (field, event) => pure (some (field, event, ← handler ctx))
    | none => pure none
  let (_, draft) ← edit setter body
    (edits (ctx (← get).module) called anchors subscription)
  return ⟨anchors, draft.calls, subscription.map (·.2.2)⟩

end Weaving

end SetterLoom
