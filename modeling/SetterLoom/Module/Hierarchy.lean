import SetterLoom.Module.Basic
import SetterLoom.Module.Surface

/-!
# Base types

The line of a type is the type itself and its base types, nearest first, up to a type without a base
or one whose base is gone. Members that a type inherits are looked up by name along its line: the first
type that has one decides, and of its members the first of that name.

* `line_of_none`, `lineUpTo_eq_cons`: how the line of a type goes on.
* `type?_of_mem_line`: the entries of a line are those of its types.
-/

namespace SetterLoom
set_option autoImplicit false

namespace Module

/-- The first `bound` types of a line. -/
def lineUpTo (m : Module) : Nat → TypeId → List (TypeId × TypeDef)
  | 0, _ => []
  | bound + 1, t =>
    match m.type? t with
    | none => []
    | some d => (t, d) :: d.base.elim [] (m.lineUpTo bound)

/-- The type and its base types, nearest first. A line without repetitions is no longer than the
list of all types. -/
def line (m : Module) (t : TypeId) : List (TypeId × TypeDef) := m.lineUpTo m.types.size t

/-- The nearest type of the line that declares a method of the name. -/
def typeOfMethod? (m : Module) (t : TypeId) (name : String) : Option TypeId :=
  ((m.line t).find? fun e => (m.methodNamed? e.2 name).isSome).map (·.1)

/-- The method of the name that the type has or inherits. -/
def methodInLine? (m : Module) (t : TypeId) (name : String) : Option MethodId :=
  (m.line t).findSome? fun e => m.methodNamed? e.2 name

/-- The field of the name that the type has or inherits. -/
def fieldInLine? (m : Module) (t : TypeId) (name : String) : Option Field :=
  (m.line t).findSome? fun e => e.2.field? name

/-- Both accessors of an event can be called from anywhere. -/
def isPublicEvent (m : Module) (e : Event) : Bool :=
  match e.add.bind m.method?, e.remove.bind m.method? with
  | some add, some remove => add.isPublic && remove.isPublic
  | _, _ => false

/-- The type of an event has the simple name. -/
def isEventOf (m : Module) (typeName : String) (e : Event) : Bool :=
  (m.type? e.type).any (·.name == typeName)

/-- The nearest public event whose type has the simple name. -/
def publicEvent? (m : Module) (t : TypeId) (typeName : String) : Option Event :=
  (m.line t).findSome? fun e =>
    e.2.events.find? fun event => m.isEventOf typeName event && m.isPublicEvent event

/-- The type derives from the base type of delegates. -/
def isDelegate (m : Module) (t : TypeId) : Bool :=
  (m.line t).tail.any fun e => e.2.fullName == Surface.multicastDelegate

/-! ## Lines -/

theorem lineUpTo_of_none {m : Module} {t : TypeId} (bound : Nat) (h : m.type? t = none) :
    m.lineUpTo bound t = [] := by
  cases bound with
  | zero => rfl
  | succ bound => simp [lineUpTo, h]

theorem line_of_none {m : Module} {t : TypeId} (h : m.type? t = none) : m.line t = [] :=
  lineUpTo_of_none _ h

theorem lineUpTo_eq_cons {m : Module} {t : TypeId} {d : TypeDef} (bound : Nat)
    (h : m.type? t = some d) :
    m.lineUpTo (bound + 1) t = (t, d) :: (d.base.elim [] (m.lineUpTo bound)) := by
  rw [lineUpTo, h]

/-- Every type of a line is there. -/
theorem type?_of_mem_lineUpTo {m : Module} {bound : Nat} {t : TypeId} {e : TypeId × TypeDef}
    (h : e ∈ m.lineUpTo bound t) : m.type? e.1 = some e.2 := by
  induction bound generalizing t with
  | zero => exact absurd h List.not_mem_nil
  | succ bound ih =>
    cases hd : m.type? t with
    | none =>
      rw [lineUpTo_of_none _ hd] at h
      exact absurd h List.not_mem_nil
    | some d =>
      rw [lineUpTo_eq_cons bound hd] at h
      rcases List.mem_cons.mp h with rfl | hm
      · exact hd
      · cases hb : d.base with
        | none => simp [hb] at hm
        | some b =>
          rw [hb] at hm
          exact ih hm

theorem type?_of_mem_line {m : Module} {t : TypeId} {e : TypeId × TypeDef} (h : e ∈ m.line t) :
    m.type? e.1 = some e.2 :=
  type?_of_mem_lineUpTo h

end Module

end SetterLoom
