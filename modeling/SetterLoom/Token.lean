import SetterLoom.Text.Digits

/-!
# Metadata tokens

A token names one row of one metadata table: the table's code is its top byte, the 1-based row the
other three. Tokens of a table are handed out in declaration order, so the numeric order of
tokens of one table is the order of declaration.

* `row_ofRow`, `code_ofRow`: a token made from a table and a row gives both back, the row reduced
  to its three bytes.
-/

namespace SetterLoom
set_option autoImplicit false

/-- The metadata tables that rows are allocated in. -/
inductive Table where
  | typeDef
  | field
  | methodDef
  | event
  | property
  deriving DecidableEq, Repr

namespace Table

/-- Every table, in the order of their positions. -/
def all : List Table := [.typeDef, .field, .methodDef, .event, .property]

/-- The byte that stands for the table in a token. -/
def code : Table → UInt32
  | .typeDef => 0x02
  | .field => 0x04
  | .methodDef => 0x06
  | .event => 0x14
  | .property => 0x17

/-- The table's place among the row counters. -/
def position : Table → Nat
  | .typeDef => 0
  | .field => 1
  | .methodDef => 2
  | .event => 3
  | .property => 4

/-- The table's name. -/
def name : Table → String
  | .typeDef => "TypeDef"
  | .field => "Field"
  | .methodDef => "MethodDef"
  | .event => "Event"
  | .property => "Property"

/-- The table of a name. -/
def ofName? (name : String) : Option Table := all.find? (·.name == name)

end Table

/-- A metadata token. -/
structure Token where
  value : UInt32
  deriving DecidableEq, Repr, Inhabited

namespace Token

/-- The bits of a token that hold its row. -/
def rowMask : UInt32 := 0x00FFFFFF

/-- The token of a row; only the row's low three bytes are kept. -/
def ofRow (table : Table) (row : UInt32) : Token :=
  ⟨(table.code <<< 24) ||| (row &&& rowMask)⟩

/-- The code of the token's table. -/
def code (t : Token) : UInt32 := t.value >>> 24

/-- The row in the token's table. -/
def row (t : Token) : UInt32 := t.value &&& rowMask

/-- Only the token 0 is null. -/
def isNull (t : Token) : Bool := t.value == 0

/-- Tokens are ordered by their value. -/
def compare (a b : Token) : Ordering := Ord.compare a.value b.value

/-- The written form: eight hexadecimal digits. -/
def text (t : Token) : String := "0x" ++ Text.hex 8 t.value.toNat

/-- The long form for listings, with table and row apart. -/
def listing (t : Token) : String :=
  "Token(" ++ t.text ++ ", table: 0x" ++ Text.hex 2 t.code.toNat ++ ", row: "
    ++ toString t.row.toNat ++ ")"

/-! ## Rows and codes of made tokens -/

private theorem or_and_distrib (a b m : UInt32) : (a ||| b) &&& m = (a &&& m) ||| (b &&& m) := by
  apply UInt32.toBitVec_inj.mp
  simp only [UInt32.toBitVec_and, UInt32.toBitVec_or]
  ext i
  simp only [BitVec.getElem_and, BitVec.getElem_or, Bool.and_or_distrib_right]

/-- No table code reaches into the bits of the row. -/
theorem code_shift_and_rowMask (table : Table) : (table.code <<< 24) &&& rowMask = 0 := by
  cases table <;> decide

/-- The row survives, reduced to its three bytes. -/
theorem row_ofRow (table : Table) (row : UInt32) : (ofRow table row).row = row &&& rowMask := by
  simp only [ofRow, Token.row]
  rw [or_and_distrib, code_shift_and_rowMask, UInt32.zero_or, UInt32.and_assoc, UInt32.and_self]

private theorem shiftRight_rowMask (row : UInt32) : (row &&& rowMask) >>> 24 = 0 := by
  apply UInt32.toNat_inj.mp
  have h : (row &&& rowMask).toNat < 2 ^ 24 := by
    rw [UInt32.toNat_and]
    exact Nat.lt_of_le_of_lt Nat.and_le_right (by decide)
  rw [UInt32.toNat_shiftRight, Nat.shiftRight_eq_div_pow]
  exact Nat.div_eq_of_lt h

/-- The table's code survives. -/
theorem code_ofRow (table : Table) (row : UInt32) : (ofRow table row).code = table.code := by
  simp only [ofRow, Token.code]
  rw [UInt32.shiftRight_or, shiftRight_rowMask, UInt32.or_zero]
  cases table <;> decide

end Token

end SetterLoom
