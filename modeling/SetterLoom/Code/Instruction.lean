import SetterLoom.Code.OpCode
import SetterLoom.Metadata.Field

/-!
# Instructions

An instruction is an operation with a label of its own. A branch names the label of the instruction
it goes to, so it keeps pointing there whatever is inserted in front.

A label is either written by the author of the code or drawn from the module's supply. The two kinds
never meet, so no label drawn for woven code can occur in code that was written.
-/

namespace SetterLoom
set_option autoImplicit false

/-- The identity of an instruction, as a branch target. -/
inductive Label where
  /-- A label chosen by the author of the code. -/
  | written (number : UInt32)
  /-- The label with this serial number of the module's supply. -/
  | drawn (serial : Nat)
  deriving DecidableEq, Repr, Inhabited

namespace Label

/-- The number that stands for the label in texts. -/
def number : Label → Nat
  | .written n => n.toNat
  | .drawn s => s

/-- The written form: at least four digits. -/
def text (l : Label) : String := "L_" ++ Text.decimal 4 l.number

end Label

/-- A method as an operand, with type arguments if the method is generic. -/
structure MethodUse where
  method : MethodId
  arguments : List TypeId := []
  deriving DecidableEq, Repr

/-- The operand of an operation. -/
inductive Operand where
  | empty
  | int (value : Int32)
  | string (value : String)
  | slot (index : UInt16)
  | argument (index : UInt16)
  | field (field : Field)
  | method (use : MethodUse)
  | type (type : TypeId)
  | target (label : Label)
  deriving DecidableEq, Repr

/-- An opcode with its operand. -/
structure Op where
  code : OpCode
  operand : Operand := .empty
  deriving DecidableEq, Repr

namespace Op

def nop : Op := ⟨.nop, .empty⟩
def ret : Op := ⟨.ret, .empty⟩
def ldnull : Op := ⟨.ldnull, .empty⟩
def ceq : Op := ⟨.ceq, .empty⟩
def dup : Op := ⟨.dup, .empty⟩
def pop : Op := ⟨.pop, .empty⟩
def ldarg (index : UInt16) : Op := ⟨.ldarg, .argument index⟩
def ldcI4 (value : Int32) : Op := ⟨.ldcI4, .int value⟩
def ldstr (value : String) : Op := ⟨.ldstr, .string value⟩
def ldloc (index : UInt16) : Op := ⟨.ldloc, .slot index⟩
def stloc (index : UInt16) : Op := ⟨.stloc, .slot index⟩
def ldfld (field : Field) : Op := ⟨.ldfld, .field field⟩
def stfld (field : Field) : Op := ⟨.stfld, .field field⟩
def ldflda (field : Field) : Op := ⟨.ldflda, .field field⟩
def initobj (type : TypeId) : Op := ⟨.initobj, .type type⟩
def box (type : TypeId) : Op := ⟨.box, .type type⟩
def ldftn (method : MethodId) : Op := ⟨.ldftn, .method ⟨method, []⟩⟩
def newobj (method : MethodId) : Op := ⟨.newobj, .method ⟨method, []⟩⟩
def call (method : MethodId) : Op := ⟨.call, .method ⟨method, []⟩⟩
def callvirt (method : MethodId) : Op := ⟨.callvirt, .method ⟨method, []⟩⟩

/-- A virtual call of a generic method at the given type arguments. -/
def callvirtGeneric (method : MethodId) (arguments : List TypeId) : Op :=
  ⟨.callvirt, .method ⟨method, arguments⟩⟩

/-- A branch to a label. -/
def branch (code : OpCode) (label : Label) : Op := ⟨code, .target label⟩

/-- The label operand. -/
def target? (op : Op) : Option Label :=
  match op.operand with
  | .target l => some l
  | _ => none

/-- The field operand. -/
def field? (op : Op) : Option Field :=
  match op.operand with
  | .field f => some f
  | _ => none

/-- The method operand. -/
def method? (op : Op) : Option MethodUse :=
  match op.operand with
  | .method u => some u
  | _ => none

/-- The operation stores into a field of the given name. -/
def storesTo (name : String) (op : Op) : Bool :=
  op.code == .stfld && op.field?.any (·.name == name)

/-- The operation takes the address of a field of the given name. -/
def addresses (name : String) (op : Op) : Bool :=
  op.code == .ldflda && op.field?.any (·.name == name)

end Op

/-- An operation with its label. -/
structure Instruction where
  label : Label
  op : Op
  deriving DecidableEq, Repr

namespace Instruction

/-- The opcode. -/
def code (i : Instruction) : OpCode := i.op.code

/-- Label a list of operations with consecutive labels of the supply. -/
def drawFrom (serial : Nat) : List Op → List Instruction
  | [] => []
  | op :: rest => ⟨.drawn serial, op⟩ :: drawFrom (serial + 1) rest

@[simp] theorem length_drawFrom (serial : Nat) (ops : List Op) :
    (drawFrom serial ops).length = ops.length := by
  induction ops generalizing serial with
  | nil => rfl
  | cons op rest ih => simp [drawFrom, ih]

@[simp] theorem map_op_drawFrom (serial : Nat) (ops : List Op) :
    (drawFrom serial ops).map (·.op) = ops := by
  induction ops generalizing serial with
  | nil => rfl
  | cons op rest ih => simp [drawFrom, ih]

end Instruction

end SetterLoom
