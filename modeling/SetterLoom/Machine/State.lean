import SetterLoom.Machine.Heap
import SetterLoom.Machine.Hook
import SetterLoom.Module.Hierarchy

/-!
# The machine's state

The machine has a heap, its hooks, the methods it can find by their tokens, a trace of what happened,
and two counters that end every run: instructions up to a limit, and nested bodies up to a depth.
Actions change the state also when they fail.

* `heap_run`: looking something up in the heap changes nothing.
* `bind_run`: an action goes on in the state that the action before it left, unless that one failed.
-/

namespace SetterLoom
set_option autoImplicit false

/-- What the trace tells. -/
inductive TraceEvent where
  /-- A method was called. -/
  | called (method : String)
  /-- A change was announced, with the values before and after if they were given. -/
  | notified (sender : HeapRef) (property : String) (before after : Option Value)
  /-- A handler was added to the event of an object. -/
  | subscribed (source : HeapRef) (listener : Option HeapRef)
  /-- A handler was to be removed from the event of an object. -/
  | unsubscribed (source : HeapRef) (listener : Option HeapRef)
  deriving DecidableEq, Repr

/-- The property that an event of the trace announces. -/
def TraceEvent.property? : TraceEvent → Option String
  | .notified _ p _ _ => some p
  | _ => none

/-- The number of instructions after which a machine stops, unless it is given another one. -/
def defaultLimit : Nat := 100000

/-- The largest number of instructions that can be counted. The counter and the limit are machine words. -/
def maxCount : Nat := UInt64.size - 1

/-- The number of bodies that may be nested. -/
def maxDepth : Nat := 64

/-- The state of a machine. -/
structure Machine where
  heap : Heap := {}
  hooks : HookTable := []
  /-- The methods that were called or loaded, by token. -/
  functions : TokenMap MethodId := .empty
  trace : Array TraceEvent := #[]
  limit : Nat := defaultLimit
  /-- The number of instructions so far. -/
  executed : Nat := 0
  /-- The number of bodies that are running. -/
  depth : Nat := 0

instance : Inhabited Machine := ⟨{}⟩

/-- Why an instruction beyond the limit is not run. It is counted before it is looked at, so a limit that is
the largest number is never exceeded. -/
def Machine.exhausted (s : Machine) (method : String) : Fault :=
  if s.executed < maxCount then .instructionLimit s.limit method else .countOverflow method

/-- Actions of the machine. -/
abbrev Action := ExceptT Error (StateM Machine)

namespace Action

/-- Fail with a fault. -/
def fault {α : Type} (f : Fault) : Action α := throw (.emulation f)

/-- What is found in the heap. -/
def heap {α : Type} (read : Heap → Except Error α) : Action α := fun s => (read s.heap, s)

/-- Make an object. -/
def alloc (o : HeapObject) : Action HeapRef := fun s =>
  (.ok s.heap.next, { s with heap := s.heap.push o })

/-- Make a string. -/
def allocString (text : String) : Action Value := .ref <$> alloc (.string text)

/-- Make an instance of a type, with nothing stored in its fields. -/
def allocObject (type : Token) : Action Value := .ref <$> alloc (.object type .empty)

/-- Store a value in a field of an object. -/
def setField (r : HeapRef) (field : Token) (value : Value) : Action Unit := fun s =>
  match s.heap.checkStore r field with
  | .ok () => (.ok (), { s with heap := s.heap.put r field value })
  | .error e => (.error e, s)

/-- Add an event to the trace. -/
def record (e : TraceEvent) : Action Unit := fun s => (.ok (), { s with trace := s.trace.push e })

/-- Make a method known by its token, unless the token is taken. -/
def know (token : Token) (i : MethodId) : Action Unit := fun s =>
  (.ok (), { s with functions := s.functions.insertNew token i })

/-- Make a method known by its token, whatever the token stood for. -/
def load (token : Token) (i : MethodId) : Action Unit := fun s =>
  (.ok (), { s with functions := s.functions.insert token i })

/-- The method that a token stands for. -/
def known (token : Token) : Action MethodId := do
  match (← get).functions.get? token with
  | some i => return i
  | none => fault (.unknownPointer token)

/-- The type of the object behind a reference, if it is registered. -/
def runtimeType (m : Module) (r : HeapRef) : Action (Option TypeId) := do
  return (← heap (·.typeOf r)).bind m.registry.get?

/-- The text of a string value; null has none. -/
def stringValue (v : Value) : Action (Option String) := do
  match v with
  | .null => return none
  | .ref r => return some (← heap (·.getString r))
  | v => fault (.stringExpected v.kind)

theorem bind_run {α β : Type} (a : Action α) (f : α → Action β) (s : Machine) :
    (a >>= f).run.run s
      = match a.run.run s with
        | (.ok x, t) => (f x).run.run t
        | (.error e, t) => (.error e, t) := by
  show (match a s with | (r, t) => ExceptT.bindCont f r t)
    = match a s with
      | (.ok x, t) => f x t
      | (.error e, t) => (.error e, t)
  rcases a s with ⟨_ | _, _⟩ <;> rfl

theorem heap_run {α : Type} (read : Heap → Except Error α) (s : Machine) :
    (heap read).run.run s = (read s.heap, s) := rfl

end Action

end SetterLoom
