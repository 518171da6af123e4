/-!
# Opcodes

The opcodes of property accessors and of the code woven into them. An opcode is written by its
mnemonic and encoded by two bytes, of which the first is 0 for one-byte opcodes; the short forms of
an opcode are not told apart, its index is in the operand.
-/

namespace SetterLoom
set_option autoImplicit false

/-- How an instruction goes on. -/
inductive Flow where
  | sequential
  | conditionalBranch
  | unconditionalBranch
  | call
  | exit
  deriving DecidableEq, Repr

/-- The name of a way to go on. -/
def Flow.name : Flow → String
  | .sequential => "Sequential"
  | .conditionalBranch => "ConditionalBranch"
  | .unconditionalBranch => "UnconditionalBranch"
  | .call => "Call"
  | .exit => "Return"

/-- What an instruction is for. -/
inductive Category where
  | comparison
  | controlFlow
  | conversion
  | loadStore
  | objectModel
  | misc
  deriving DecidableEq, Repr

/-- The name of a category. -/
def Category.name : Category → String
  | .comparison => "Comparison"
  | .controlFlow => "ControlFlow"
  | .conversion => "Conversion"
  | .loadStore => "LoadStore"
  | .objectModel => "ObjectModel"
  | .misc => "Misc"

/-- The opcodes. -/
inductive OpCode where
  | nop
  | ldarg
  | ldnull
  | ldcI4
  | ldstr
  | ldloc
  | stloc
  | ldfld
  | stfld
  | ldflda
  | initobj
  | ldftn
  | newobj
  | call
  | callvirt
  | box
  | br
  | brtrue
  | brfalse
  | ceq
  | dup
  | pop
  | ret
  deriving DecidableEq, Repr

namespace OpCode

/-- Every opcode. -/
def all : List OpCode :=
  [.nop, .ldarg, .ldnull, .ldcI4, .ldstr, .ldloc, .stloc, .ldfld, .stfld, .ldflda, .initobj,
   .ldftn, .newobj, .call, .callvirt, .box, .br, .brtrue, .brfalse, .ceq, .dup, .pop, .ret]

/-- The written form. -/
def mnemonic : OpCode → String
  | .nop => "nop"
  | .ldarg => "ldarg"
  | .ldnull => "ldnull"
  | .ldcI4 => "ldc.i4"
  | .ldstr => "ldstr"
  | .ldloc => "ldloc"
  | .stloc => "stloc"
  | .ldfld => "ldfld"
  | .stfld => "stfld"
  | .ldflda => "ldflda"
  | .initobj => "initobj"
  | .ldftn => "ldftn"
  | .newobj => "newobj"
  | .call => "call"
  | .callvirt => "callvirt"
  | .box => "box"
  | .br => "br"
  | .brtrue => "brtrue"
  | .brfalse => "brfalse"
  | .ceq => "ceq"
  | .dup => "dup"
  | .pop => "pop"
  | .ret => "ret"

/-- The opcode with a mnemonic. -/
def ofMnemonic? (s : String) : Option OpCode := all.find? (·.mnemonic == s)

/-- The prefix byte, 0 where there is none, and the byte of the opcode. -/
def encoding : OpCode → UInt8 × UInt8
  | .nop => (0, 0x00)
  | .ldarg => (0xFE, 0x09)
  | .ldnull => (0, 0x14)
  | .ldcI4 => (0, 0x20)
  | .ldstr => (0, 0x72)
  | .ldloc => (0xFE, 0x0C)
  | .stloc => (0xFE, 0x0E)
  | .ldfld => (0, 0x7B)
  | .stfld => (0, 0x7D)
  | .ldflda => (0, 0x7C)
  | .initobj => (0xFE, 0x15)
  | .ldftn => (0xFE, 0x06)
  | .newobj => (0, 0x73)
  | .call => (0, 0x28)
  | .callvirt => (0, 0x6F)
  | .box => (0, 0x8C)
  | .br => (0, 0x38)
  | .brtrue => (0, 0x3A)
  | .brfalse => (0, 0x39)
  | .ceq => (0xFE, 0x01)
  | .dup => (0, 0x25)
  | .pop => (0, 0x26)
  | .ret => (0, 0x2A)

/-- How an instruction with this opcode goes on. -/
def flow : OpCode → Flow
  | .brtrue | .brfalse => .conditionalBranch
  | .br => .unconditionalBranch
  | .call | .callvirt | .newobj => .call
  | .ret => .exit
  | _ => .sequential

/-- What an instruction with this opcode is for. -/
def category : OpCode → Category
  | .ceq => .comparison
  | .br | .brtrue | .brfalse | .call | .callvirt | .ret => .controlFlow
  | .box => .conversion
  | .ldarg | .ldnull | .ldcI4 | .ldstr | .ldloc | .stloc => .loadStore
  | .ldfld | .stfld | .ldflda | .initobj | .ldftn | .newobj => .objectModel
  | .nop | .dup | .pop => .misc

/-- Whether an instruction with this opcode can go on at a label. -/
def isBranch (op : OpCode) : Bool :=
  match op.flow with
  | .conditionalBranch | .unconditionalBranch => true
  | _ => false

end OpCode

end SetterLoom
