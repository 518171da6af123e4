import SetterLoom.Machine.Object

/-!
# One instruction

A body runs in a frame: its arguments, its slots and a stack of operands. An instruction takes its operands
from the stack, and says how to go on: with the next instruction, at a label, or back to the caller.

* `popMany?_eq_some`: arguments are taken in the order in which they were pushed.
* `Op.forms`: the operations with the operands that they take, and those that are stuck.
-/

namespace SetterLoom
set_option autoImplicit false

/-- The state of a running body. The stack's top comes first. -/
structure Frame where
  arguments : List Value
  slots : List Value
  stack : List Value := []
  deriving DecidableEq, Repr

namespace Frame

/-- Push an operand. -/
def push (f : Frame) (v : Value) : Frame := { f with stack := v :: f.stack }

/-- Take the topmost operands, in the order in which they were pushed. -/
def popMany? (f : Frame) (count : Nat) : Option (List Value × Frame) :=
  if count ≤ f.stack.length then
    some ((f.stack.take count).reverse, { f with stack := f.stack.drop count })
  else none

theorem popMany?_eq_some (f : Frame) (values : List Value) :
    ({ f with stack := values.reverse ++ f.stack } : Frame).popMany? values.length
      = some (values, f) := by
  have hlen : values.reverse.length = values.length := List.length_reverse
  simp [popMany?, List.take_left' hlen, List.drop_left' hlen]

end Frame

/-- How a body goes on. -/
inductive Step where
  | next (frame : Frame)
  | jump (label : Label) (frame : Frame)
  | done (result : Value)
  deriving DecidableEq, Repr

/-- A method that is running, in its module. -/
structure Site where
  module : Module
  method : Method

namespace Site

/-- The full name of the method. -/
def name (c : Site) : String := c.module.methodName c.method

/-- The operand does not go with the opcode, or refers to nothing. -/
def unexpected {α : Type} (c : Site) (code : OpCode) : Action α :=
  Action.fault (.unexpectedOperand code c.name)

/-- Take the topmost operand. -/
def pop (c : Site) (f : Frame) : Action (Value × Frame) :=
  match f.stack with
  | v :: stack => pure (v, { f with stack })
  | [] => Action.fault (.stackUnderflow c.name)

/-- Take the arguments of a call. -/
def popMany (c : Site) (f : Frame) (count : Nat) : Action (List Value × Frame) :=
  match f.popMany? count with
  | some popped => pure popped
  | none => Action.fault (.stackUnderflow c.name)

/-- The object whose field is accessed. -/
def object (c : Site) (v : Value) : Action HeapRef :=
  match v with
  | .ref r => pure r
  | v => Action.fault (.fieldAccess v.kind c.name)

/-- Push what was found. -/
def pushFound (c : Site) (code : OpCode) (f : Frame) (found : Option Value) : Action Step :=
  match found with
  | some v => pure (.next (f.push v))
  | none => c.unexpected code

/-! ## Slots and fields -/

/-- Store the top of the stack in a slot. -/
def storeSlot (c : Site) (f : Frame) (index : Nat) : Action Step := do
  let (v, f) ← c.pop f
  if index < f.slots.length then return .next { f with slots := f.slots.set index v }
  else c.unexpected .stloc

/-- Load a field of an object: the value stored last, or the default of the field's type. -/
def loadField (c : Site) (f : Frame) (field : Field) : Action Step := do
  let (v, f) ← c.pop f
  let r ← c.object v
  let stored ← Action.heap (·.getField r field.token)
  return .next (f.push (stored.getD (c.module.defaultOf field.type)))

/-- Store the top of the stack in a field of the object below it. -/
def storeField (c : Site) (f : Frame) (field : Field) : Action Step := do
  let (v, f) ← c.pop f
  let (o, f) ← c.pop f
  let r ← c.object o
  Action.setField r field.token v
  return .next f

/-- Take the address of a field. -/
def loadAddress (c : Site) (f : Frame) (field : Field) : Action Step := do
  let (v, f) ← c.pop f
  let r ← c.object v
  return .next (f.push (.address r field.token))

/-- Store the default of a type at an address. -/
def initialise (c : Site) (f : Frame) (type : TypeId) : Action Step := do
  let (v, f) ← c.pop f
  match v with
  | .address r field =>
    Action.setField r field (c.module.defaultOf type)
    return .next f
  | _ => c.unexpected .initobj

/-- Make an object of the top of the stack if it is of a value type. -/
def boxTop (c : Site) (f : Frame) (type : TypeId) : Action Step := do
  let (v, f) ← c.pop f
  match (c.module.type? type).filter (·.isValue) with
  | some d => return .next (f.push (.ref (← Action.alloc (.boxed d.token v))))
  | none => return .next (f.push v)

/-! ## Calls -/

/-- Push a pointer to a method, which is known from then on. -/
def loadFunction (c : Site) (f : Frame) (i : MethodId) : Action Step := do
  match c.module.method? i with
  | some d =>
    Action.load d.token i
    return .next (f.push (.function d.token))
  | none => c.unexpected .ldftn

/-- Make an object. -/
def newObject (c : Site) (call : Call) (f : Frame) (i : MethodId) : Action Step := do
  match c.module.method? i with
  | some d =>
    let (arguments, f) ← c.popMany f d.params.length
    return .next (f.push (← Action.construct c.module call i arguments))
  | none => c.unexpected .newobj

/-- A virtual call on an object. A delegate is called through its invoking method. -/
def callOnObject (c : Site) (call : Call) (i : MethodId) (d : Method) (r : HeapRef)
    (arguments : List Value) : Action Value := do
  let object ← Action.heap (·.get r)
  if d.name == Surface.invoke && object.isDelegate then
    Action.invokeDelegate call r arguments
    return .void
  else
    let target ← Action.dispatch c.module r i d
    call target (some (.ref r)) arguments

/-- Call a method with a receiver. -/
def callOn (c : Site) (call : Call) (code : OpCode) (i : MethodId) (d : Method) (this : Value)
    (arguments : List Value) : Action Value :=
  match code, this with
  | .callvirt, .ref r => c.callOnObject call i d r arguments
  | .callvirt, .null => Action.fault (.nullCall (c.module.methodName d) c.name)
  | _, this => call i (some this) arguments

/-- Call a method and push its result, if it has one. -/
def callMethod (c : Site) (call : Call) (f : Frame) (code : OpCode) (i : MethodId) :
    Action Step := do
  match c.module.method? i with
  | none => c.unexpected code
  | some d =>
    let (arguments, f) ← c.popMany f d.params.length
    if d.isStatic then
      let result ← call i none arguments
      return .next (if d.returns.isSome then f.push result else f)
    else
      let (this, f) ← c.pop f
      let result ← c.callOn call code i d this arguments
      return .next (if d.returns.isSome then f.push result else f)

/-! ## Branches -/

/-- Go to a label if the top of the stack has the given truth. -/
def branchIf (c : Site) (f : Frame) (truth : Bool) (label : Label) : Action Step := do
  let (v, f) ← c.pop f
  return if v.truth == truth then .jump label f else .next f

/-- Push whether the two topmost values are the same. -/
def compareTop (c : Site) (f : Frame) : Action Step := do
  let (right, f) ← c.pop f
  let (left, f) ← c.pop f
  return .next (f.push (.int (if left = right then 1 else 0)))

/-- Push the top of the stack again. -/
def duplicate (c : Site) (f : Frame) : Action Step := do
  let (v, f) ← c.pop f
  return .next ((f.push v).push v)

/-- Drop the top of the stack. -/
def dropTop (c : Site) (f : Frame) : Action Step := do
  let (_, f) ← c.pop f
  return .next f

/-- Return to the caller, with the top of the stack if the method has a result. -/
def returnTop (c : Site) (f : Frame) : Action Step := do
  if c.method.returns.isSome then
    let (v, _) ← c.pop f
    return .done v
  else return .done .void

/-! ## The instructions -/

/-- Run one instruction. -/
def step (c : Site) (call : Call) (op : Op) (f : Frame) : Action Step :=
  match op.code with
  | .nop => pure (.next f)
  | .ldarg =>
    match op.operand with
    | .argument k => c.pushFound .ldarg f f.arguments[k.toNat]?
    | _ => c.unexpected .ldarg
  | .ldnull => pure (.next (f.push .null))
  | .ldcI4 =>
    match op.operand with
    | .int n => pure (.next (f.push (.int n)))
    | _ => c.unexpected .ldcI4
  | .ldstr =>
    match op.operand with
    | .string text => (fun v => .next (f.push v)) <$> Action.allocString text
    | _ => c.unexpected .ldstr
  | .ldloc =>
    match op.operand with
    | .slot k => c.pushFound .ldloc f f.slots[k.toNat]?
    | _ => c.unexpected .ldloc
  | .stloc =>
    match op.operand with
    | .slot k => c.storeSlot f k.toNat
    | _ => c.unexpected .stloc
  | .ldfld =>
    match op.operand with
    | .field field => c.loadField f field
    | _ => c.unexpected .ldfld
  | .stfld =>
    match op.operand with
    | .field field => c.storeField f field
    | _ => c.unexpected .stfld
  | .ldflda =>
    match op.operand with
    | .field field => c.loadAddress f field
    | _ => c.unexpected .ldflda
  | .initobj =>
    match op.operand with
    | .type t => c.initialise f t
    | _ => c.unexpected .initobj
  | .ldftn =>
    match op.operand with
    | .method use => c.loadFunction f use.method
    | _ => c.unexpected .ldftn
  | .newobj =>
    match op.operand with
    | .method use => c.newObject call f use.method
    | _ => c.unexpected .newobj
  | .call =>
    match op.operand with
    | .method use => c.callMethod call f .call use.method
    | _ => c.unexpected .call
  | .callvirt =>
    match op.operand with
    | .method use => c.callMethod call f .callvirt use.method
    | _ => c.unexpected .callvirt
  | .box =>
    match op.operand with
    | .type t => c.boxTop f t
    | _ => c.unexpected .box
  | .br =>
    match op.operand with
    | .target l => pure (.jump l f)
    | _ => c.unexpected .br
  | .brtrue =>
    match op.operand with
    | .target l => c.branchIf f true l
    | _ => c.unexpected .brtrue
  | .brfalse =>
    match op.operand with
    | .target l => c.branchIf f false l
    | _ => c.unexpected .brfalse
  | .ceq => c.compareTop f
  | .dup => c.duplicate f
  | .pop => c.dropTop f
  | .ret => c.returnTop f

end Site

/-- An operation has the operand that its code takes, or it is stuck in every frame. -/
@[elab_as_elim]
theorem Op.forms {motive : Op → Prop}
    (nop : ∀ x, motive ⟨.nop, x⟩) (ldnull : ∀ x, motive ⟨.ldnull, x⟩) (ceq : ∀ x, motive ⟨.ceq, x⟩)
    (dup : ∀ x, motive ⟨.dup, x⟩) (pop : ∀ x, motive ⟨.pop, x⟩) (ret : ∀ x, motive ⟨.ret, x⟩)
    (ldarg : ∀ k, motive ⟨.ldarg, .argument k⟩) (ldloc : ∀ k, motive ⟨.ldloc, .slot k⟩)
    (stloc : ∀ k, motive ⟨.stloc, .slot k⟩) (ldcI4 : ∀ n, motive ⟨.ldcI4, .int n⟩)
    (ldstr : ∀ text, motive ⟨.ldstr, .string text⟩) (ldfld : ∀ field, motive ⟨.ldfld, .field field⟩)
    (stfld : ∀ field, motive ⟨.stfld, .field field⟩) (ldflda : ∀ field, motive ⟨.ldflda, .field field⟩)
    (initobj : ∀ t, motive ⟨.initobj, .type t⟩) (box : ∀ t, motive ⟨.box, .type t⟩)
    (ldftn : ∀ use, motive ⟨.ldftn, .method use⟩) (newobj : ∀ use, motive ⟨.newobj, .method use⟩)
    (call : ∀ use, motive ⟨.call, .method use⟩) (callvirt : ∀ use, motive ⟨.callvirt, .method use⟩)
    (br : ∀ l, motive ⟨.br, .target l⟩) (brtrue : ∀ l, motive ⟨.brtrue, .target l⟩)
    (brfalse : ∀ l, motive ⟨.brfalse, .target l⟩)
    (stuck : ∀ op : Op, (∀ (c : Site) (calls : Call) (f : Frame), c.step calls op f = c.unexpected op.code) →
      motive op)
    (op : Op) : motive op := by
  obtain ⟨code, operand⟩ := op
  cases code with
  | nop => exact nop operand
  | ldnull => exact ldnull operand
  | ceq => exact ceq operand
  | dup => exact dup operand
  | pop => exact pop operand
  | ret => exact ret operand
  | ldarg =>
    cases operand with
    | argument k => exact ldarg k
    | _ => exact stuck _ fun _ _ _ => rfl
  | ldloc =>
    cases operand with
    | slot k => exact ldloc k
    | _ => exact stuck _ fun _ _ _ => rfl
  | stloc =>
    cases operand with
    | slot k => exact stloc k
    | _ => exact stuck _ fun _ _ _ => rfl
  | ldcI4 =>
    cases operand with
    | int n => exact ldcI4 n
    | _ => exact stuck _ fun _ _ _ => rfl
  | ldstr =>
    cases operand with
    | string text => exact ldstr text
    | _ => exact stuck _ fun _ _ _ => rfl
  | ldfld =>
    cases operand with
    | field field => exact ldfld field
    | _ => exact stuck _ fun _ _ _ => rfl
  | stfld =>
    cases operand with
    | field field => exact stfld field
    | _ => exact stuck _ fun _ _ _ => rfl
  | ldflda =>
    cases operand with
    | field field => exact ldflda field
    | _ => exact stuck _ fun _ _ _ => rfl
  | initobj =>
    cases operand with
    | type t => exact initobj t
    | _ => exact stuck _ fun _ _ _ => rfl
  | box =>
    cases operand with
    | type t => exact box t
    | _ => exact stuck _ fun _ _ _ => rfl
  | ldftn =>
    cases operand with
    | method use => exact ldftn use
    | _ => exact stuck _ fun _ _ _ => rfl
  | newobj =>
    cases operand with
    | method use => exact newobj use
    | _ => exact stuck _ fun _ _ _ => rfl
  | call =>
    cases operand with
    | method use => exact call use
    | _ => exact stuck _ fun _ _ _ => rfl
  | callvirt =>
    cases operand with
    | method use => exact callvirt use
    | _ => exact stuck _ fun _ _ _ => rfl
  | br =>
    cases operand with
    | target l => exact br l
    | _ => exact stuck _ fun _ _ _ => rfl
  | brtrue =>
    cases operand with
    | target l => exact brtrue l
    | _ => exact stuck _ fun _ _ _ => rfl
  | brfalse =>
    cases operand with
    | target l => exact brfalse l
    | _ => exact stuck _ fun _ _ _ => rfl

end SetterLoom
