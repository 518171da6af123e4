import SetterLoom.Token

/-!
# Attribute words

The attributes of methods and fields are words whose bits have names. A row of the metadata holds
the access of a method in its low three bits and the modifiers in the others; bits that have no
name are dropped when such a row is read.
-/

namespace SetterLoom
set_option autoImplicit false

/-- The bits of a method's row that hold its access. -/
def accessMask : UInt32 := 0x0007

/-- The access of a method: who may call it. -/
structure Access where
  bits : UInt32
  deriving DecidableEq, Repr, Inhabited

namespace Access

def compilerControlled : Access := ⟨0x0000⟩
def privateAccess : Access := ⟨0x0001⟩
def familyAndAssembly : Access := ⟨0x0002⟩
def assembly : Access := ⟨0x0003⟩
def family : Access := ⟨0x0004⟩
def familyOrAssembly : Access := ⟨0x0005⟩
def publicAccess : Access := ⟨0x0006⟩

/-- The named values in declaration order. -/
def named : List (String × UInt32) :=
  [("COMPILER_CONTROLLED", compilerControlled.bits), ("PRIVATE", privateAccess.bits),
   ("FAM_AND_ASSEM", familyAndAssembly.bits), ("ASSEM", assembly.bits),
   ("FAMILY", family.bits), ("FAM_OR_ASSEM", familyOrAssembly.bits),
   ("PUBLIC", publicAccess.bits)]

/-- The access held by a method's row. -/
def ofRow (row : UInt32) : Access := ⟨row &&& accessMask⟩

end Access

/-- The modifiers of a method. -/
structure Modifiers where
  bits : UInt32
  deriving DecidableEq, Repr, Inhabited

namespace Modifiers

def staticBit : Modifiers := ⟨0x0010⟩
def finalBit : Modifiers := ⟨0x0020⟩
def virtualBit : Modifiers := ⟨0x0040⟩
def hideBySig : Modifiers := ⟨0x0080⟩
def newSlot : Modifiers := ⟨0x0100⟩
def abstractBit : Modifiers := ⟨0x0400⟩
def specialName : Modifiers := ⟨0x0800⟩
def runtimeSpecialName : Modifiers := ⟨0x1000⟩

/-- The named bits in declaration order. -/
def named : List (String × UInt32) :=
  [("STATIC", staticBit.bits), ("FINAL", finalBit.bits), ("VIRTUAL", virtualBit.bits),
   ("HIDE_BY_SIG", hideBySig.bits), ("NEW_SLOT", newSlot.bits), ("ABSTRACT", abstractBit.bits),
   ("SPECIAL_NAME", specialName.bits), ("RTSPECIAL_NAME", runtimeSpecialName.bits)]

/-- Every named bit. -/
def known : UInt32 := named.foldl (fun acc n => acc ||| n.2) 0

/-- The modifiers held by a method's row. -/
def ofRow (row : UInt32) : Modifiers := ⟨row &&& (known &&& ~~~accessMask)⟩

/-- Both sets of modifiers together. -/
def union (a b : Modifiers) : Modifiers := ⟨a.bits ||| b.bits⟩

/-- Every bit of the second set is in the first. -/
def contains (a b : Modifiers) : Bool := a.bits &&& b.bits == b.bits

end Modifiers

/-- The attributes of a field. -/
structure FieldFlags where
  bits : UInt16
  deriving DecidableEq, Repr, Inhabited

namespace FieldFlags

def privateBit : FieldFlags := ⟨0x0001⟩
def initOnly : FieldFlags := ⟨0x0020⟩

/-- The named values in declaration order. -/
def named : List (String × UInt16) :=
  [("PRIVATE", 0x0001), ("FAM_AND_ASSEM", 0x0002), ("ASSEMBLY", 0x0003), ("FAMILY", 0x0004),
   ("FAM_OR_ASSEM", 0x0005), ("PUBLIC", 0x0006), ("STATIC", 0x0010), ("INIT_ONLY", 0x0020),
   ("SPECIAL_NAME", 0x0200)]

/-- Every named bit. -/
def known : UInt16 := named.foldl (fun acc n => acc ||| n.2) 0

/-- The attributes held by a field's row. -/
def ofRow (row : UInt16) : FieldFlags := ⟨row &&& known⟩

/-- Both sets of attributes together. -/
def union (a b : FieldFlags) : FieldFlags := ⟨a.bits ||| b.bits⟩

end FieldFlags

/-! ## The names of a word's bits -/

/-- The names that a word shows, in the order of the table: a name is shown if all its bits are
in the word and one of them is not shown by an earlier name. -/
def shownNames (bits : UInt32) : List (String × UInt32) → UInt32 → List String
  | [], _ => []
  | (name, flag) :: rest, covered =>
    if bits &&& flag == flag && flag &&& ~~~covered != 0 then
      name :: shownNames bits rest (covered ||| flag)
    else shownNames bits rest covered

/-- A word in a listing: its names, or the number of a word without any. -/
def wordListing (kind : String) (bits : UInt32) (named : List (String × UInt32)) : String :=
  kind ++ "("
    ++ (if bits == 0 then "0x0" else String.intercalate " | " (shownNames bits named 0)) ++ ")"

namespace Access

/-- The access in a listing. -/
def listing (a : Access) : String := wordListing "MethodAccessFlags" a.bits named

end Access

namespace Modifiers

/-- The modifiers in a listing. -/
def listing (m : Modifiers) : String := wordListing "MethodModifiers" m.bits named

end Modifiers

end SetterLoom
