import SetterLoom.Token

/-!
# Values

What the machine's stack, slots, arguments and fields hold. Small integers and booleans are 32-bit
integers, everything with an identity is a reference into the heap.
-/

namespace SetterLoom
set_option autoImplicit false

/-- A reference to a heap object. -/
structure HeapRef where
  id : Nat
  deriving DecidableEq, Repr, Inhabited

/-- The written form of a reference. -/
def HeapRef.text (r : HeapRef) : String := "HeapRef(" ++ toString r.id ++ ")"

/-- A value of the machine. -/
inductive Value where
  /-- The result of a method without one. -/
  | void
  | int (value : Int32)
  | null
  | ref (target : HeapRef)
  /-- A value type instance, told apart by its type only. -/
  | struct (type : Token)
  /-- The address of a field of an object. -/
  | address (object : HeapRef) (field : Token)
  /-- A pointer to a method. -/
  | function (method : Token)
  deriving DecidableEq, Repr, Inhabited

namespace Value

/-- The value is the null reference. -/
def isNull : Value → Bool
  | .null => true
  | _ => false

/-- The number, if the value is one. -/
def int? : Value → Option Int32
  | .int n => some n
  | _ => none

/-- The referenced object, if the value is a reference. -/
def ref? : Value → Option HeapRef
  | .ref r => some r
  | _ => none

/-- The truth of the value as a condition: 0, null and the missing value are false. -/
def truth : Value → Bool
  | .int n => n != 0
  | .null | .void => false
  | _ => true

/-- What kind of value it is, in words. -/
def kind : Value → String
  | .void => "void"
  | .int _ => "int32"
  | .null => "null"
  | .ref _ => "object"
  | .struct _ => "valuetype"
  | .address _ _ => "field address"
  | .function _ => "method pointer"

/-- The written form. -/
def text : Value → String
  | .void => "void"
  | .int n => toString n.toInt
  | .null => "null"
  | .ref r => r.text
  | .struct t => "valuetype " ++ t.text
  | .address r f => "&" ++ r.text ++ "." ++ f.text
  | .function m => "fnptr " ++ m.text

end Value

end SetterLoom
