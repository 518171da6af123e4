import SetterLoom.Code.Instruction
import SetterLoom.Error

/-!
# Instruction streams

A method's code is a list of instructions, edited by position. An insertion shifts only what stands
at its position or behind it, so positions found in the unedited code stay right if the edits are
made from the highest position down.

* `insertAt_eq_ok`, `insertAt_eq_error`: an insertion succeeds exactly up to the end of the stream.
-/

namespace SetterLoom
set_option autoImplicit false

/-- The code of a method. -/
abbrev Stream := List Instruction

namespace Stream

/-- Insert code in front of a position, which may be the end, and give the position behind the
inserted code; refused beyond the end. -/
def insertAt (s : Stream) (position : Nat) (block : List Instruction) :
    Except Error (Nat × Stream) :=
  if position ≤ s.length then
    .ok (position + block.length, s.take position ++ block ++ s.drop position)
  else .error (.positionOutOfRange position s.length)

/-- Put code in front, and give the position behind it. -/
def prepend (s : Stream) (block : List Instruction) : Nat × Stream := (block.length, block ++ s)

/-- Whether code begins with the initialisation of an addressed value. -/
def startsWithInit : Stream → Bool
  | i :: _ => i.code == .initobj
  | [] => false

/-- The positions right behind the stores into a field of the given name, counted from `start`: a
plain store is one instruction, a default initialisation takes the address first. -/
def storesFrom (name : String) : Nat → Stream → List Nat
  | _, [] => []
  | start, i :: rest =>
    if i.op.storesTo name then (start + 1) :: storesFrom name (start + 1) rest
    else if i.op.addresses name && startsWithInit rest then
      (start + 2) :: storesFrom name (start + 1) rest
    else storesFrom name (start + 1) rest

/-- The positions right behind the stores into a field of the given name, in order. -/
def stores (s : Stream) (name : String) : List Nat := storesFrom name 0 s

/-- The position of the last return, or of the last instruction if there is no return. -/
def lastReturn (s : Stream) : Nat :=
  match s.reverse.findIdx? (·.code == .ret) with
  | some k => s.length - 1 - k
  | none => s.length - 1

/-- The first position that carries a label. -/
def position? (s : Stream) (label : Label) : Option Nat := s.findIdx? (·.label == label)

/-- The last position that carries a label. -/
def lastPosition? (s : Stream) (label : Label) : Option Nat :=
  (s.reverse.findIdx? (·.label == label)).map fun k => s.length - 1 - k

/-- The first branch to a label that no instruction carries, with that label. -/
def danglingBranch? (s : Stream) : Option (Nat × Label) :=
  s.zipIdx.findSome? fun (i, position) =>
    match i.op.target? with
    | some l => if s.any (·.label == l) then none else some (position, l)
    | none => none

/-! ## Insertion -/

theorem insertAt_eq_ok {s : Stream} {position : Nat} (block : List Instruction)
    (h : position ≤ s.length) :
    s.insertAt position block
      = .ok (position + block.length, s.take position ++ block ++ s.drop position) :=
  if_pos h

theorem insertAt_eq_error {s : Stream} {position : Nat} (block : List Instruction)
    (h : s.length < position) :
    s.insertAt position block = .error (.positionOutOfRange position s.length) :=
  if_neg (Nat.not_le.mpr h)

end Stream

end SetterLoom
