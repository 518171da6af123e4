import SetterLoom.Machine.Object

/-!
# Members of the runtime

The machine answers for four members that compiled code relies on: the comparison of two objects, adding
a handler to the changed event and removing one, and the method that raises the event.

The handlers of an object are one delegate in the field behind its event, or nothing. Adding a
handler appends its list to that of the field; removing one takes out the last place where its list
occurs. Raising calls the handlers that are there when it starts.

* `withoutLast_eq_none`: nothing is taken out exactly if the list to remove is empty or does not occur.
-/

namespace SetterLoom
set_option autoImplicit false

/-! ## Lists of handlers -/

/-- The list without the last occurrence of a nonempty part. -/
def withoutLast (part : List Invocation) : List Invocation → Option (List Invocation)
  | [] => none
  | i :: rest =>
    match withoutLast part rest with
    | some rest => some (i :: rest)
    | none =>
      if !part.isEmpty && part.isPrefixOf (i :: rest) then some ((i :: rest).drop part.length)
      else none

/-- Only a part that is not empty and occurs is taken out. -/
theorem withoutLast_eq_none {part list : List Invocation} :
    withoutLast part list = none ↔ part = [] ∨ ¬ part <:+: list := by
  induction list with
  | nil =>
    simp only [withoutLast, true_iff]
    by_cases hp : part = []
    · exact Or.inl hp
    · exact Or.inr fun h => hp (List.infix_nil.mp h)
  | cons i rest ih =>
    rw [withoutLast]
    cases hw : withoutLast part rest with
    | some kept =>
      have hno : ¬ (part = [] ∨ ¬ part <:+: rest) := fun h => by
        rw [ih.mpr h] at hw
        exact absurd hw (by simp)
      have hpart : part ≠ [] := fun h => hno (Or.inl h)
      have hin : part <:+: rest := Classical.not_not.mp fun h => hno (Or.inr h)
      simp only [reduceCtorEq, false_iff]
      rintro (h | h)
      · exact hpart h
      · exact h (hin.trans (List.suffix_cons i rest).isInfix)
    | none =>
      have hrest := ih.mp hw
      by_cases hp : part = []
      · simp [hp]
      · have hnot : ¬ part <:+: rest := hrest.resolve_left hp
        by_cases hpre : part <+: i :: rest
        · have : part.isPrefixOf (i :: rest) = true := List.isPrefixOf_iff_prefix.mpr hpre
          simp [hp, this, hpre.isInfix]
        · have hb : part.isPrefixOf (i :: rest) = false := by
            rw [← Bool.not_eq_true, List.isPrefixOf_iff_prefix]
            exact hpre
          simp only [hb, Bool.and_false, Bool.false_eq_true, if_false, true_iff]
          refine Or.inr fun hin => ?_
          rcases List.infix_cons_iff.mp hin with h | h
          · exact hpre h
          · exact hnot h

namespace Action

/-! ## Comparing -/

/-- Whether two values are equal as objects: strings by their text, boxes by their type and value,
other objects if they are the same. -/
def valuesEqual (a b : Value) : Action Bool := do
  match a, b with
  | .ref p, .ref q =>
    if p = q then return true
    let left ← heap (·.get p)
    let right ← heap (·.get q)
    match left, right with
    | .string s, .string t => return s == t
    | .boxed t v, .boxed u w => return t == u && v == w
    | _, _ => return false
  | a, b => return a == b

/-- The answer of the comparison. -/
def objectEquals (arguments : List Value) : Action (Option Value) := do
  match arguments with
  | [a, b] => return some (.int (if ← valuesEqual a b then 1 else 0))
  | _ => fault .equalsArity

/-! ## The event of an object -/

/-- The receiver, which has to be an object. -/
def receiver (method : String) (this : Option Value) : Action HeapRef :=
  match this.bind (·.ref?) with
  | some r => pure r
  | none => fault (.memberWithoutReceiver method)

/-- The field behind the changed event, in the nearest type of the object that has it. -/
def eventField? (m : Module) (r : HeapRef) : Action (Option Field) := do
  return (← runtimeType m r).bind (m.fieldInLine? · Surface.changedEvent)

/-- The list of a handler; null has an empty one. -/
def invocations (v : Value) : Action (List Invocation) := do
  match v with
  | .null => return []
  | .ref r =>
    match ← heap (·.get r) with
    | .delegate _ list => return list
    | o => fault (.delegateExpected o.kind)
  | v => fault (.delegateExpected v.kind)

/-- The value of a field, null if nothing was stored in it. -/
def fieldOrNull (r : HeapRef) (field : Token) : Action Value := do
  return (← heap (·.getField r field)).getD .null

/-- Store a list of handlers behind the event of an object, as a delegate of the type that the given
handler has. -/
def storeHandlers (source : HeapRef) (field : Field) (like : HeapRef) (list : List Invocation) :
    Action Unit := do
  if list.isEmpty then setField source field.token .null
  else
    match ← heap (·.typeOf like) with
    | some type => setField source field.token (.ref (← alloc (.delegate type list)))
    | none => fault .untypedHandler

/-- The object, the field behind its event and the handler that a member is called with. -/
def handlerArguments (m : Module) (method : String) (this : Option Value)
    (arguments : List Value) : Action (Option (HeapRef × Field × HeapRef)) := do
  let source ← receiver method this
  match arguments.head?.bind (·.ref?) with
  | none => return none
  | some handler =>
    match ← eventField? m source with
    | some field => return some (source, field, handler)
    | none => fault (.noEventField source Surface.changedEvent)

/-- The receiver of the first method of a list. -/
def firstTarget (list : List Invocation) : Option HeapRef := list.head?.bind (·.target)

/-- Add a handler. -/
def addHandler (m : Module) (method : String) (this : Option Value) (arguments : List Value) :
    Action (Option Value) := do
  match ← handlerArguments m method this arguments with
  | none => return none
  | some (source, field, handler) =>
    let added ← invocations (.ref handler)
    let present ← invocations (← fieldOrNull source field.token)
    storeHandlers source field handler (present ++ added)
    record (.subscribed source (firstTarget added))
    return none

/-- Remove a handler. -/
def removeHandler (m : Module) (method : String) (this : Option Value) (arguments : List Value) :
    Action (Option Value) := do
  match ← handlerArguments m method this arguments with
  | none => return none
  | some (source, field, handler) =>
    let removed ← invocations (.ref handler)
    let present ← invocations (← fieldOrNull source field.token)
    match withoutLast removed present with
    | some kept => storeHandlers source field handler kept
    | none => pure ()
    record (.unsubscribed source (firstTarget removed))
    return none

/-! ## Raising the event -/

/-- The name in the event arguments. -/
def nameInArguments (m : Module) (r : HeapRef) : Action String := do
  let t ← liftExcept (m.require Surface.eventArgs)
  match (m.type? t).bind (·.field? Surface.nameField) with
  | none => throw (.unresolved Surface.nameField)
  | some field => return (← stringValue (← fieldOrNull r field.token)).getD ""
where
  liftExcept {α : Type} (e : Except Error α) : Action α := fun s => (e, s)

/-- The name of the property that is announced, given as a string or in the event arguments. -/
def propertyName (m : Module) (v : Value) : Action String := do
  match v with
  | .ref r =>
    match ← heap (·.get r) with
    | .string name => return name
    | _ => nameInArguments m r
  | v => fault (.nameExpected v.kind)

/-- Call the handlers of an object. -/
def raiseEvent (m : Module) (call : Call) (sender : HeapRef) (property : String) :
    Action Unit := do
  match ← eventField? m sender with
  | none => return ()
  | some field =>
    match ← heap (·.getField sender field.token) with
    | some (.ref handlers) =>
      let constructor ← eventArgsConstructor
      let name ← allocString property
      let arguments ← construct m call constructor [name]
      invokeDelegate call handlers [.ref sender, arguments]
    | _ => return ()
where
  eventArgsConstructor : Action MethodId := fun s =>
    match m.require Surface.eventArgs with
    | .error e => (.error e, s)
    | .ok t =>
      match (m.type? t).bind (m.methodNamed? · Surface.constructor) with
      | some i => (.ok i, s)
      | none => (.error (.unresolved (Surface.eventArgs ++ "::" ++ Surface.constructor)), s)

/-- What is announced: the name, or sender and event arguments, or the name and the values before
and after. -/
def announcement (m : Module) (arguments : List Value) :
    Action (String × Option Value × Option Value) := do
  match arguments with
  | [a] => return (← propertyName m a, none, none)
  | [_, a] => return (← propertyName m a, none, none)
  | [a, before, after] => return (← propertyName m a, some before, some after)
  | _ => fault (.raiseShape arguments.length)

/-- Announce a change. -/
def raise (m : Module) (call : Call) (method : String) (this : Option Value)
    (arguments : List Value) : Action (Option Value) := do
  let sender ← receiver method this
  let (property, before, after) ← announcement m arguments
  record (.notified sender property before after)
  raiseEvent m call sender property
  return none

/-- Answer for a member of the runtime. -/
def answerFor (m : Module) (call : Call) (member : RuntimeMember) (method : String)
    (this : Option Value) (arguments : List Value) : Action (Option Value) :=
  match member with
  | .objectEquals => objectEquals arguments
  | .addHandler => addHandler m method this arguments
  | .removeHandler => removeHandler m method this arguments
  | .raise => raise m call method this arguments

end Action

namespace RuntimeMember

/-- The hook of a member. -/
def hook : RuntimeMember → Hook
  | .objectEquals =>
    { name := "object-equals", priority := highPriority
      pattern := some ⟨some "System", some "Object", some Surface.equals⟩
      action := .runtime .objectEquals }
  | .addHandler =>
    { name := "add-property-changed", priority := lowPriority
      pattern := some ⟨none, none, some (Surface.adder Surface.changedEvent)⟩
      action := .runtime .addHandler }
  | .removeHandler =>
    { name := "remove-property-changed", priority := lowPriority
      pattern := some ⟨none, none, some (Surface.remover Surface.changedEvent)⟩
      action := .runtime .removeHandler }
  | .raise =>
    { name := "on-property-changed", priority := lowPriority
      pattern := some ⟨none, none, some Surface.raiser⟩
      action := .runtime .raise }

/-- Every member, in the order in which the hooks are registered. -/
def all : List RuntimeMember := [.objectEquals, .addHandler, .removeHandler, .raise]

end RuntimeMember

namespace Machine

/-- Register a hook. -/
def register (s : Machine) (h : Hook) : Machine := { s with hooks := s.hooks.register h }

/-- A machine that answers for the members of the runtime. -/
def withRuntimeMembers : Machine := (RuntimeMember.all.map (·.hook)).foldl register {}

end Machine

end SetterLoom
