import SetterLoom.Module.Hierarchy

/-!
# Capabilities of types

What is woven into a setter depends on whether the types around it announce their changes. A type has
a capability if it or one of its base types lists the interface that marks it. Answers are kept by the
full name of the type, one table for each capability.

* `answer?_store`: storing an answer changes that answer only.
* `askLine_known`: a kept answer is given as it is, and nothing is added.
-/

namespace SetterLoom
set_option autoImplicit false

/-- What a type can have by a marker interface. -/
inductive Capability where
  /-- Instances announce changes of their properties. -/
  | observable
  /-- Instances pass on the changes of the objects they hold. -/
  | childChanges
  deriving DecidableEq, Repr

/-- The simple name of the interface that marks a capability. -/
def Capability.marker : Capability → String
  | .observable => "INotifyPropertyChanged"
  | .childChanges => "INotifyPropertyChangedContent"

namespace Module

/-- The type itself lists the marker of the capability. -/
def declares (m : Module) (c : Capability) (d : TypeDef) : Bool :=
  d.interfaces.any fun i => (m.type? i).any (·.name == c.marker)

/-- The type or one of its base types lists the marker. -/
def implements (m : Module) (c : Capability) (t : TypeId) : Bool :=
  (m.line t).any fun e => m.declares c e.2

end Module

/-- Answers by the full name of the type. -/
abbrev AnswerTable := List (String × Bool)

namespace AnswerTable

/-- The answer kept for a name. -/
def answer? (table : AnswerTable) (name : String) : Option Bool := table.lookup name

/-- Keep an answer, in place of the one the name had. -/
def store (table : AnswerTable) (name : String) (answer : Bool) : AnswerTable :=
  (name, answer) :: table.filter (·.1 != name)

private theorem lookup_filter_ne {table : AnswerTable} {name other : String} (h : other ≠ name) :
    (table.filter (·.1 != name)).lookup other = table.lookup other := by
  induction table with
  | nil => rfl
  | cons e rest ih =>
    obtain ⟨k, b⟩ := e
    by_cases hk : k = name
    · subst hk
      have hother : (other == k) = false := beq_eq_false_iff_ne.mpr h
      simp only [List.filter_cons, bne_self_eq_false, Bool.false_eq_true, if_false,
        List.lookup_cons, hother, ih]
    · have hkeep : (k != name) = true := by simpa using hk
      simp only [List.filter_cons, hkeep, if_true, List.lookup_cons, ih]

theorem answer?_store (table : AnswerTable) (name other : String) (answer : Bool) :
    (table.store name answer).answer? other
      = if other = name then some answer else table.answer? other := by
  by_cases h : other = name
  · simp [store, answer?, h]
  · have hother : (other == name) = false := beq_eq_false_iff_ne.mpr h
    rw [if_neg h, store, answer?, List.lookup_cons, hother]
    exact lookup_filter_ne h

end AnswerTable

/-- The answers that are kept for each capability. -/
structure CapabilityCache where
  observable : AnswerTable := []
  childChanges : AnswerTable := []
  deriving DecidableEq, Repr, Inhabited

namespace CapabilityCache

/-- The table of a capability. -/
def table (cache : CapabilityCache) : Capability → AnswerTable
  | .observable => cache.observable
  | .childChanges => cache.childChanges

/-- Keep an answer. -/
def store (cache : CapabilityCache) (c : Capability) (name : String) (answer : Bool) :
    CapabilityCache :=
  match c with
  | .observable => { cache with observable := cache.observable.store name answer }
  | .childChanges => { cache with childChanges := cache.childChanges.store name answer }

/-- The number of answers kept for a capability. -/
def count (cache : CapabilityCache) (c : Capability) : Nat := (cache.table c).length

theorem table_store (cache : CapabilityCache) (c d : Capability) (name : String) (answer : Bool) :
    (cache.store c name answer).table d
      = if d = c then (cache.table d).store name answer else cache.table d := by
  cases c <;> cases d <;> rfl

/-- Answer for the first type of a line. Without an answer for its name the type is looked at, and
then the rest of the line, whose answer is kept for the type too. -/
def askLine (m : Module) (c : Capability) :
    List (TypeId × TypeDef) → CapabilityCache → Bool × CapabilityCache
  | [], cache => (false, cache)
  | (_, d) :: rest, cache =>
    match (cache.table c).answer? d.fullName with
    | some answer => (answer, cache)
    | none =>
      if m.declares c d then (true, cache.store c d.fullName true)
      else
        let (answer, cache) := askLine m c rest cache
        (answer, cache.store c d.fullName answer)

/-- Whether a type has a capability, and the answers that are kept from then on. -/
def ask (cache : CapabilityCache) (m : Module) (c : Capability) (t : TypeId) :
    Bool × CapabilityCache :=
  askLine m c (m.line t) cache

/-- A kept answer is given as it is. -/
theorem askLine_known {m : Module} {c : Capability} {t : TypeId} {d : TypeDef}
    {rest : List (TypeId × TypeDef)} {cache : CapabilityCache} {answer : Bool}
    (h : (cache.table c).answer? d.fullName = some answer) :
    askLine m c ((t, d) :: rest) cache = (answer, cache) := by
  rw [askLine, h]

end CapabilityCache

end SetterLoom
