import SetterLoom.Machine.Value
import SetterLoom.Text.Quoted

/-!
# Hooks

A hook is asked before a method is called and may answer in its place. Hooks are kept from the highest
priority to the lowest, and those of one priority in the order in which they were registered; of the
hooks whose pattern fits the method, the first is asked.

* `register_of_lt`: a hook is placed in front of those with a lower priority.
-/

namespace SetterLoom
set_option autoImplicit false

/-- The name of a called method, with the names of the type that declares it. -/
structure CallName where
  space : String
  type : String
  method : String
  deriving DecidableEq, Repr

/-- A pattern for the names of methods; a part that is absent fits every name. -/
structure NamePattern where
  space : Option String := none
  type : Option String := none
  method : Option String := none
  deriving DecidableEq, Repr

namespace NamePattern

/-- A part of the pattern fits a name. -/
def fitsPart (part : Option String) (name : String) : Bool :=
  match part with
  | some p => p == name
  | none => true

/-- The pattern fits a called method. -/
def fits (p : NamePattern) (c : CallName) : Bool :=
  fitsPart p.space c.space && fitsPart p.type c.type && fitsPart p.method c.method

/-- The written form, with a star for a part that fits every name. -/
def text (p : NamePattern) : String :=
  p.space.getD "*" ++ "." ++ p.type.getD "*" ++ "::" ++ p.method.getD "*"

end NamePattern

/-- The members that the machine answers for. -/
inductive RuntimeMember where
  /-- The static comparison of two objects. -/
  | objectEquals
  | addHandler
  | removeHandler
  /-- The method that announces a change. -/
  | raise
  deriving DecidableEq, Repr

/-- What a hook does when it is asked. -/
inductive HookAction where
  /-- It lets the call go on. -/
  | proceed
  /-- It refuses the call. -/
  | refuse (text : String)
  /-- It answers with a value, or without one. -/
  | answer (value : Option Value)
  /-- It answers with the receiver, if there is one. -/
  | answerReceiver
  /-- It answers with an argument, if there is one at the position. -/
  | answerArgument (position : Nat)
  /-- It answers for a member of the runtime unless the method has a body. -/
  | runtime (member : RuntimeMember)
  deriving DecidableEq, Repr

/-- The priority of a hook that has to come early. -/
def highPriority : Int32 := 500

/-- The priority of a hook without a wish. -/
def normalPriority : Int32 := 0

/-- The priority of a hook that has to come late. -/
def lowPriority : Int32 := -500

/-- A hook; without a pattern it fits no method. -/
structure Hook where
  name : String
  priority : Int32 := normalPriority
  pattern : Option NamePattern := none
  action : HookAction := .proceed
  deriving DecidableEq, Repr

namespace Hook

/-- The hook is asked for a method. -/
def fits (h : Hook) (c : CallName) : Bool := h.pattern.any (·.fits c)

/-- The hook in a listing. -/
def listing (h : Hook) : String :=
  Text.partialRecord "Hook"
    [("name", Text.quoted h.name),
     ("priority", "HookPriority(" ++ toString h.priority.toInt ++ ")"),
     ("matcher", Text.optional (h.pattern.map fun p => Text.quoted p.text))]

end Hook

/-- Hooks in the order in which they are asked. -/
abbrev HookTable := List Hook

namespace HookTable

/-- Add a hook behind those that come before it. -/
def register (hook : Hook) : HookTable → HookTable
  | [] => [hook]
  | h :: rest => if h.priority < hook.priority then hook :: h :: rest else h :: register hook rest

/-- The hook that is asked for a method. -/
def find? (table : HookTable) (c : CallName) : Option Hook := List.find? (·.fits c) table

theorem register_of_lt {hook h : Hook} {rest : HookTable} (hlt : h.priority < hook.priority) :
    register hook (h :: rest) = hook :: h :: rest := by
  rw [register, if_pos hlt]

end HookTable

end SetterLoom
