import SetterLoom.Machine.Event
import SetterLoom.Machine.Step

/-!
# Running methods

A call is noted, then a hook may answer it, and only then its body runs. Two bounds end every run: each
instruction is counted against the limit, and bodies are nested up to a fixed depth. A branch goes to the
last instruction with its label.

A run of instructions is at most as long as the limit allows, and calls are nested at most as deep as
bodies may be plus one call for each instruction that is left: between two calls that hooks answer
one inside the other, the event arguments are made.

* `runFrom_limit`: an instruction beyond the limit is not run.
-/

namespace SetterLoom
set_option autoImplicit false

namespace Site

/-- Run code from a position, at most as many instructions as given. -/
def runFrom (c : Site) (call : Call) (code : Stream) :
    Nat → Nat → Frame → Machine → Except Error Value × Machine
  | 0, _, _, s => (.error (.emulation (.instructionLimit s.limit c.name)), s)
  | bound + 1, position, f, s =>
    match code[position]? with
    | none => (.error (.emulation (.pastTheEnd c.name)), s)
    | some i =>
      if s.limit ≤ s.executed then
        (.error (.emulation (s.exhausted c.name)),
          { s with executed := s.executed + 1 })
      else
        match c.step call i.op f { s with executed := s.executed + 1 } with
        | (.error e, s) => (.error e, s)
        | (.ok (.next f), s) => runFrom c call code bound (position + 1) f s
        | (.ok (.done v), s) => (.ok v, s)
        | (.ok (.jump l f), s) =>
          match code.lastPosition? l with
          | some position => runFrom c call code bound position f s
          | none => (.error (.emulation (.unknownLabel c.name)), s)

/-- Run code from its start, as long as the limit allows. -/
def run (c : Site) (call : Call) (code : Stream) (f : Frame) : Action Value := fun s =>
  c.runFrom call code (s.limit - s.executed + 1) 0 f s

/-- The slots of a body before it runs. -/
def startSlots (c : Site) (body : Body) : List Value :=
  body.slots.zipIdx.map fun (t, index) => if index < 65536 then c.module.defaultOf t else .null

/-- The frame that a body starts in. A static method ignores its receiver. -/
def startFrame (c : Site) (body : Body) (this : Option Value) (arguments : List Value) :
    Action Frame :=
  if c.method.isStatic then pure { arguments, slots := c.startSlots body }
  else
    match this with
    | some r => pure { arguments := r :: arguments, slots := c.startSlots body }
    | none => Action.fault (.noReceiver c.name)

/-- Run the body of the method one level deeper. -/
def runBody (c : Site) (call : Call) (this : Option Value) (arguments : List Value) :
    Action Value := do
  let some body := c.method.body | throw (.missingBody c.name)
  let f ← c.startFrame body this arguments
  fun s =>
    let (result, s) := c.run call body.code f { s with depth := s.depth + 1 }
    (result, { s with depth := s.depth - 1 })

/-- The names by which hooks know the method. -/
def callName (c : Site) : CallName :=
  let owner := c.module.declarer? c.method
  ⟨owner.elim "" (·.space), owner.elim "" (·.name), c.method.name⟩

/-- What a hook answers; nothing if the call is to go on. -/
def askHook (c : Site) (call : Call) (h : Hook) (this : Option Value) (arguments : List Value) :
    Action (Option Value) :=
  match h.action with
  | .proceed => pure none
  | .refuse text => throw (.refused h.name c.name text)
  | .answer v => pure (some (v.getD .void))
  | .answerReceiver => pure (some (this.getD .void))
  | .answerArgument k => pure (some (arguments[k]?.getD .void))
  | .runtime member =>
    if c.method.body.isSome then pure none
    else
      tryCatch
        (do
          let v ← Action.answerFor c.module call member c.method.name this arguments
          return some (v.getD .void))
        fun cause => throw (.runtimeMember h.name c.name cause)

/-- Answer a call by the hook that fits, if there is one. -/
def answer (c : Site) (call : Call) (this : Option Value) (arguments : List Value) :
    Action (Option Value) := do
  match (← get).hooks.find? c.callName with
  | some h => c.askHook call h this arguments
  | none => return none

end Site

namespace Action

/-- Call a method, given how to call the methods it calls. -/
def invokeWith (m : Module) (call : Call) (i : MethodId) (this : Option Value)
    (arguments : List Value) : Action Value := do
  let some d := m.method? i | throw (.missingBody (m.methodText i))
  let c : Site := ⟨m, d⟩
  if maxDepth ≤ (← get).depth then fault (.callDepth c.name)
  know d.token i
  record (.called c.name)
  match ← c.answer call this arguments with
  | some v => return v
  | none => c.runBody call this arguments

/-- Call a method, with calls nested at most as deep as given. -/
def invokeAt (m : Module) : Nat → Call
  | 0, i, _, _ => fault (.callDepth (m.methodText i))
  | bound + 1, i, this, arguments => invokeWith m (invokeAt m bound) i this arguments

/-- How deep calls can be nested. -/
def nesting (s : Machine) : Nat := maxDepth + (s.limit - s.executed) + 2

/-- Call a method. -/
def invoke (m : Module) : Call := fun i this arguments s =>
  invokeAt m (nesting s) i this arguments s

/-- Get the value of a property of an object. -/
def getProperty (m : Module) (r : HeapRef) (p : Property) : Action Value :=
  match p.getter with
  | some i => invoke m i (some (.ref r)) []
  | none => throw (.missingAccessor p.name .get)

/-- Set the value of a property of an object. -/
def setProperty (m : Module) (r : HeapRef) (p : Property) (v : Value) : Action Unit :=
  match p.setter with
  | some i => discard (invoke m i (some (.ref r)) [v])
  | none => throw (.missingAccessor p.name .set)

/-- An action that is chosen in a state is run as the chosen one. -/
theorem chosen_run (f : Nat → Action Value) (n : Machine → Nat) (s : Machine) :
    (show Action Value from fun s => f (n s) s).run.run s = (f (n s)).run.run s := rfl

theorem invoke_run (m : Module) (i : MethodId) (this : Option Value) (arguments : List Value)
    (s : Machine) : (invoke m i this arguments).run.run s
      = (invokeAt m (nesting s) i this arguments).run.run s := by
  unfold invoke
  exact chosen_run (fun bound => invokeAt m bound i this arguments) nesting s

end Action

/-! ## Bounds -/

/-- An instruction beyond the limit is counted and not run. -/
theorem Site.runFrom_limit {c : Site} {call : Call} {code : Stream} {position : Nat}
    {i : Instruction} {s : Machine} (f : Frame) (bound : Nat) (hi : code[position]? = some i)
    (hs : s.limit ≤ s.executed) :
    c.runFrom call code (bound + 1) position f s
      = (.error (.emulation (s.exhausted c.name)),
          { s with executed := s.executed + 1 }) := by
  rw [Site.runFrom, hi]
  simp only [if_pos hs]

end SetterLoom
