import SetterLoom.Weave.Plan

/-!
# Bodies under edit

A body is edited block by block. Blocks get labels from the supply and slots of their own; values that
have to be read before anything else happens are collected and read at the very start, once all blocks
are in place. What was edited stays edited when a later step fails.

* `addSlot_run`, `insert_run`: what a step does to the body.
-/

namespace SetterLoom
set_option autoImplicit false

/-- A value that is read on entry into a slot, as an object if `boxed`. -/
structure Capture where
  property : String
  boxed : Bool
  slot : UInt16
  deriving DecidableEq, Repr

/-- A body under edit. -/
structure Draft where
  body : Body
  /-- The serial number of the next label. -/
  serial : Nat
  captures : List Capture := []
  /-- The code that reads the captures. -/
  prologue : List Op := []
  /-- The number of calls of the invoker that were made. -/
  calls : Nat := 0
  deriving Repr

/-- Steps of an edit. -/
abbrev Drafting := ExceptT Error (StateM Draft)

namespace Draft

/-- The slot that a value was captured in. -/
def capture? (d : Draft) (property : String) (boxed : Bool) : Option UInt16 :=
  (d.captures.find? fun c => c.property == property && c.boxed == boxed).map (·.slot)

/-- Add a slot and give the index it is addressed by. -/
def addSlot (type : TypeId) : Drafting UInt16 := fun d =>
  (.ok d.body.nextSlot, { d with body := d.body.addSlot type })

/-- Note that a value is captured, and the code that reads it. -/
def addCapture (c : Capture) (ops : List Op) : Drafting Unit := fun d =>
  (.ok (), { d with captures := d.captures ++ [c], prologue := d.prologue ++ ops })

/-- Count a call of the invoker. -/
def countCall : Drafting Unit := fun d => (.ok (), { d with calls := d.calls + 1 })

/-- Label operations from the supply. -/
def labelled (ops : List Op) : Drafting (List Instruction) := fun d =>
  (.ok (Instruction.drawFrom d.serial ops), { d with serial := d.serial + ops.length })

/-- Insert code in front of a position. -/
def insert (position : Nat) (code : List Instruction) : Drafting Unit := fun d =>
  match d.body.code.insertAt position code with
  | .ok (_, code) => (.ok (), { d with body := { d.body with code } })
  | .error e => (.error e, d)

/-- Append code. -/
def append (code : List Instruction) : Drafting Unit := fun d =>
  (.ok (), { d with body := { d.body with code := d.body.code ++ code } })

/-- Put code in front of the body. -/
def prepend (code : List Instruction) : Drafting Unit := fun d =>
  (.ok (), { d with body := { d.body with code := (d.body.code.prepend code).2 } })

/-- Put the code that reads the captures in front of the body. -/
def prependPrologue : Drafting Unit := do
  prepend (← labelled (← get).prologue)

/-! ## What a step does -/

theorem addSlot_run (type : TypeId) (d : Draft) :
    (addSlot type).run.run d = (.ok d.body.nextSlot, { d with body := d.body.addSlot type }) := rfl

theorem insert_run {d : Draft} {position : Nat} (code : List Instruction)
    (h : position ≤ d.body.code.length) :
    ((insert position code).run.run d).2.body.code
      = d.body.code.take position ++ code ++ d.body.code.drop position := by
  show (insert position code d).2.body.code = _
  simp only [insert, Stream.insertAt_eq_ok code h]

end Draft

end SetterLoom
