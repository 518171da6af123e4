import SetterLoom.Error
import SetterLoom.TokenMap

/-!
# The heap

Objects are numbered from 1 in the order of their allocation and never go away. Strings, boxes and
delegates do not change once they are made; an object of a type has fields, which are absent until
something is stored in them.

* `get?_push_new`, `get?_push_old`: an allocation gives a new object and leaves the others alone.
* `checkStore_eq_ok`: exactly objects with fields can be stored into.
-/

namespace SetterLoom
set_option autoImplicit false

/-- A method that a delegate calls, with the receiver if there is one. -/
structure Invocation where
  target : Option HeapRef
  method : Token
  deriving DecidableEq, Repr

/-- What a reference refers to. -/
inductive HeapObject where
  | string (value : String)
  /-- An instance of a type. -/
  | object (type : Token) (fields : TokenMap Value)
  /-- A value as an object. -/
  | boxed (type : Token) (value : Value)
  | delegate (type : Token) (invocations : List Invocation)
  deriving DecidableEq, Repr

namespace HeapObject

/-- What kind of object it is, in words. -/
def kind : HeapObject → String
  | .string _ => "string"
  | .object _ _ => "object"
  | .boxed _ _ => "boxed value"
  | .delegate _ _ => "delegate"

/-- The type of the object; a string has none. -/
def type? : HeapObject → Option Token
  | .string _ => none
  | .object t _ | .boxed t _ | .delegate t _ => some t

/-- The object is a delegate. -/
def isDelegate : HeapObject → Bool
  | .delegate _ _ => true
  | _ => false

/-- The object with a value stored in one of its fields, if it has fields. -/
def put (field : Token) (value : Value) : HeapObject → HeapObject
  | .object t fields => .object t (fields.insert field value)
  | o => o

end HeapObject

/-- All objects; the object with the number `n` stands at position `n - 1`. -/
structure Heap where
  objects : Array HeapObject := #[]
  deriving Repr

namespace Heap

instance : Inhabited Heap := ⟨{}⟩

/-- The number of objects. -/
def size (h : Heap) : Nat := h.objects.size

/-- The reference that the next object gets. -/
def next (h : Heap) : HeapRef := ⟨h.objects.size + 1⟩

/-- Make an object under the next reference. -/
def push (h : Heap) (o : HeapObject) : Heap := ⟨h.objects.push o⟩

/-- The object behind a reference. -/
def get? (h : Heap) (r : HeapRef) : Option HeapObject :=
  if r.id = 0 then none else h.objects[r.id - 1]?

/-- The object behind a reference, which must be there. -/
def get (h : Heap) (r : HeapRef) : Except Error HeapObject :=
  match h.get? r with
  | some o => .ok o
  | none => .error (.emulation (.danglingRef r))

/-- The text of a string. -/
def getString (h : Heap) (r : HeapRef) : Except Error String := do
  match ← h.get r with
  | .string s => return s
  | o => throw (.emulation (.notAString r o.kind))

/-- The type of the object behind a reference. -/
def typeOf (h : Heap) (r : HeapRef) : Except Error (Option Token) := do
  return (← h.get r).type?

/-- What was stored last in a field of an object. -/
def getField (h : Heap) (r : HeapRef) (field : Token) : Except Error (Option Value) := do
  match ← h.get r with
  | .object _ fields => return fields.get? field
  | o => throw (.emulation (.loadFrom field o.kind))

/-- The object behind a reference has fields to store into. -/
def checkStore (h : Heap) (r : HeapRef) (field : Token) : Except Error Unit := do
  match ← h.get r with
  | .object _ _ => return ()
  | o => throw (.emulation (.storeTo field o.kind))

/-- Store a value in a field of an object that has fields. -/
def put (h : Heap) (r : HeapRef) (field : Token) (value : Value) : Heap :=
  ⟨h.objects.modify (r.id - 1) (·.put field value)⟩

/-- Store a value in a field of an object. -/
def setField (h : Heap) (r : HeapRef) (field : Token) (value : Value) : Except Error Heap := do
  h.checkStore r field
  return h.put r field value

/-! ## What lookups find -/

/-- A reference that refers to an object has the object's number. -/
theorem get?_eq_some {h : Heap} {r : HeapRef} {o : HeapObject} (hr : h.get? r = some o) :
    0 < r.id ∧ r.id ≤ h.size := by
  unfold get? at hr
  split at hr
  · exact absurd hr (by simp)
  · have hlt := (Array.getElem?_eq_some_iff.mp hr).1
    simp only [size]
    omega

theorem get?_push_new (h : Heap) (o : HeapObject) : (h.push o).get? h.next = some o := by
  simp [push, next, get?]

theorem get?_push_old (h : Heap) (o : HeapObject) {r : HeapRef} (hr : r.id ≤ h.size) :
    (h.push o).get? r = h.get? r := by
  simp only [size] at hr
  simp only [push, get?]
  split
  · rfl
  · rw [Array.getElem?_push, if_neg (by omega)]

/-- Behind the last object there is only a new one. -/
theorem eq_next_of_get?_push {h : Heap} {o x : HeapObject} {r : HeapRef}
    (hr : (h.push o).get? r = some x) (hnew : ¬ r.id ≤ h.size) : r = h.next ∧ x = o := by
  have hle : r.id ≤ h.size + 1 := by
    have hsize := (get?_eq_some hr).2
    simpa [push, size] using hsize
  have hid : r.id = h.size + 1 := Nat.le_antisymm hle (Nat.lt_of_not_le hnew)
  have hnext : r = h.next := congrArg HeapRef.mk hid
  rw [hnext, get?_push_new] at hr
  exact ⟨hnext, (Option.some.inj hr).symm⟩

theorem size_push (h : Heap) (o : HeapObject) : (h.push o).size = h.size + 1 := by
  simp [push, size]

theorem get?_put (h : Heap) (r q : HeapRef) (field : Token) (value : Value) (hr : 0 < r.id) :
    (h.put r field value).get? q
      = if q = r then (h.get? q).map (·.put field value) else h.get? q := by
  have hid : q = r ↔ q.id = r.id := by cases q; cases r; simp
  simp only [put, get?, Array.getElem?_modify, hid]
  by_cases hq : q.id = r.id
  · rw [if_neg (by omega), if_pos (by omega), if_pos hq, if_neg (by omega)]
  · rw [if_neg hq]
    split
    · rfl
    · rw [if_neg (by omega)]

/-- Exactly objects with fields can be stored into. -/
theorem checkStore_eq_ok {h : Heap} {r : HeapRef} {field : Token} :
    h.checkStore r field = .ok () ↔ ∃ t fields, h.get? r = some (.object t fields) := by
  unfold checkStore get
  cases hr : h.get? r with
  | none => simp [bind, Except.bind]
  | some o =>
    cases o <;>
      simp [bind, Except.bind, pure, Except.pure, throw, throwThe, MonadExceptOf.throw]

end Heap

end SetterLoom
