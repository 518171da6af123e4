import SetterLoom.Module.Listing

/-!
# Editing a body by hand

Code can be put into the body of a method without weaving: at a position, at the start, or in front of
the last return. The body can get a slot for it first. The edit is made in place, so the slot stays when
the position turns out to be beyond the end.
-/

namespace SetterLoom
set_option autoImplicit false

/-- A place in a body. -/
inductive Place where
  /-- In front of the first instruction. -/
  | start
  /-- In front of the last return. -/
  | lastReturn
  | position (index : Nat)
  deriving DecidableEq, Repr

/-- Insert code at a place, and give the position behind it. -/
def Stream.insertInto (s : Stream) (place : Place) (block : List Instruction) :
    Except Error (Nat × Stream) :=
  match place with
  | .start => .ok (s.prepend block)
  | .lastReturn => s.insertAt s.lastReturn block
  | .position index => s.insertAt index block

/-- What an edit did: the index of the slot that was added, and the position behind the code. -/
structure BodyEdit where
  slot : Option UInt16
  position : Nat
  deriving DecidableEq, Repr

namespace Module

/-- Put code into the body of a method, which gets a slot of the given type first. -/
def editBody (m : Module) (i : MethodId) (slot : Option TypeId) (place : Place)
    (block : List Instruction) : Except Error BodyEdit × Module :=
  match (m.method? i).bind (·.body) with
  | none => (.error (.missingBody (m.methodText i)), m)
  | some old =>
    let body := slot.elim old old.addSlot
    match body.code.insertInto place block with
    | .error e => (.error e, m.setBody i (some body))
    | .ok (position, code) =>
      (.ok ⟨slot.map fun _ => old.nextSlot, position⟩, m.setBody i (some { body with code }))

end Module

end SetterLoom
