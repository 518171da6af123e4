import SetterLoom.Code.Stream

/-!
# Methods

A method has a signature, attributes and, unless the runtime supplies it, a body: code with the
local slots it uses. A slot is addressed by a 16-bit index, so the index of a new slot is the number
of slots reduced to 16 bits.

* `slot?_addSlot_new`, `slot?_addSlot_old`: a new slot is found under its index and the old ones
  under theirs, as long as the slots fit 16 bits.
-/

namespace SetterLoom
set_option autoImplicit false

/-- A parameter of a method. -/
structure Param where
  name : String
  type : TypeId
  deriving DecidableEq, Repr

/-- The implementation of a method. -/
structure Body where
  code : Stream := []
  slots : List TypeId := []
  zeroed : Bool := false
  deriving DecidableEq, Repr

namespace Body

/-- A body without slots, whose locals start at their defaults. -/
def ofCode (code : Stream) : Body := ⟨code, [], true⟩

/-- The index that a slot added now is addressed by. -/
def nextSlot (b : Body) : UInt16 := UInt16.ofNat b.slots.length

/-- Add a slot. -/
def addSlot (b : Body) (type : TypeId) : Body := { b with slots := b.slots ++ [type] }

/-- The type of an addressed slot. -/
def slot? (b : Body) (index : UInt16) : Option TypeId := b.slots[index.toNat]?

theorem slot?_addSlot_new (b : Body) (type : TypeId) (h : b.slots.length < 65536) :
    (b.addSlot type).slot? b.nextSlot = some type := by
  have hn : (UInt16.ofNat b.slots.length).toNat = b.slots.length := by
    rw [UInt16.toNat_ofNat']
    exact Nat.mod_eq_of_lt h
  simp [slot?, addSlot, nextSlot, hn]

theorem slot?_addSlot_old (b : Body) (type : TypeId) {index : UInt16}
    (h : index.toNat < b.slots.length) : (b.addSlot type).slot? index = b.slot? index := by
  simp [slot?, addSlot, List.getElem?_append_left h]

end Body

/-- A method declaration. `returns` is absent for methods without a result, `owner` for methods
that no type declares. -/
structure Method where
  token : Token
  name : String
  access : Access
  modifiers : Modifiers
  params : List Param
  returns : Option TypeId
  generics : Nat := 0
  attributes : List String := []
  owner : Option TypeId := none
  body : Option Body
  deriving DecidableEq, Repr

namespace Method

/-- The method has no receiver. -/
def isStatic (m : Method) : Bool := m.modifiers.contains .staticBit

/-- The method may be overridden. -/
def isVirtual (m : Method) : Bool := m.modifiers.contains .virtualBit

/-- The method may be called from anywhere. -/
def isPublic (m : Method) : Bool := m.access == .publicAccess

/-- The method has type parameters. -/
def isGeneric (m : Method) : Bool := m.generics > 0

/-- The method carries an attribute. -/
def hasAttribute (m : Method) (name : String) : Bool := m.attributes.contains name

end Method

end SetterLoom
