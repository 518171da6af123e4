import SetterLoom.Weave.Resolver
import SetterLoom.Proofs.Machine.Dispatched

/-!
# Overloads in the runtime surface

Woven code needs the static comparison of two objects, and constructors of the changed event's handlers and
arguments that take two arguments and one. All three names may be overloaded. The usual resolver takes the
first method of the name. It looks at the shape of the method only for the comparison, and only once the choice
is made. What it is meant to answer and what it answers are told apart here.

* `Resolver.meantEquals`, `Resolver.meantConstructor`: what is meant.
* `Resolver.equalsOf_eq_meant_iff`, `Resolver.constructorOf_eq_meant_iff`: when it is given.
* `Resolver.standard_overloads`: all three lookups, in every module.
* `Resolver.overloads_in_front`: surfaces where they miss what is there and take what is not meant.
-/

namespace SetterLoom
set_option autoImplicit false

namespace Method

/-- The method compares two objects, neither of which is its receiver. -/
def isComparison (d : Method) : Bool := d.isStatic && d.params.length == 2

/-- The method takes that many arguments. -/
def takes (count : Nat) (d : Method) : Bool := d.params.length == count

end Method

/-! ## Searches and stricter searches -/

section

variable {α : Type} {p q : α → Bool} {l : List α} {x : α}

theorem filter_find?_and :
    (l.find? p).filter q = (l.find? p).filter fun x => p x && q x := by
  cases hx : l.find? p with
  | none => rfl
  | some x => rw [Option.filter_some, Option.filter_some, List.find?_some hx, Bool.true_and]

theorem find?_of_filter (himp : ∀ y, q y = true → p y = true) (h : (l.find? p).filter q = some x) :
    l.find? q = some x := by
  obtain ⟨hx, hq⟩ := Option.filter_eq_some_iff.mp h
  exact Module.find?_of_find? himp hx hq

theorem filter_find?_eq_iff (himp : ∀ y, q y = true → p y = true) :
    (l.find? p).filter q = l.find? q ↔ ∀ y, l.find? q = some y → l.find? p = some y := by
  constructor
  · intro h y hy
    rw [← h] at hy
    exact (Option.filter_eq_some_iff.mp hy).1
  · intro h
    cases hfound : l.find? q with
    | some y =>
      rw [h y hfound, Option.filter_some, if_pos (List.find?_some hfound)]
    | none =>
      cases hfilter : (l.find? p).filter q with
      | none => rfl
      | some x => exact absurd (find?_of_filter himp hfilter) (by simp [hfound])

/-- The first that passes a test is the first that passes a stricter one exactly if it passes that too, or if
there is none at all. -/
theorem find?_eq_find?_iff (himp : ∀ y, q y = true → p y = true) :
    l.find? p = l.find? q ↔ ∀ x, l.find? p = some x → q x = true := by
  constructor
  · intro h x hx
    exact List.find?_some (h.symm.trans hx)
  · intro h
    cases hfound : l.find? p with
    | some x => exact (Module.find?_of_find? himp hfound (h x hfound)).symm
    | none =>
      symm
      refine List.find?_eq_none.mpr fun x hx hq => ?_
      exact List.find?_eq_none.mp hfound x hx (himp x hq)

end

namespace Module

variable {m : Module} {t : TypeId} {name : String} {i : MethodId} {shape : Method → Bool}

/-- The method has the name. -/
def isNamed (m : Module) (name : String) (i : MethodId) : Bool := (m.method? i).any (·.name == name)

/-- The method has the name and the shape. -/
def isOverload (m : Module) (name : String) (shape : Method → Bool) (i : MethodId) : Bool :=
  m.isNamed name i && (m.method? i).any shape

/-- The first method of the name and shape that the type declares itself. -/
def overload? (m : Module) (t : TypeId) (name : String) (shape : Method → Bool) : Option MethodId :=
  (m.type? t).bind fun d => d.methods.find? (m.isOverload name shape)

/-- The method of the name and shape that the nearest type with such a method declares. -/
def overloadInLine? (m : Module) (t : TypeId) (name : String) (shape : Method → Bool) : Option MethodId :=
  (m.line t).findSome? fun e => e.2.methods.find? (m.isOverload name shape)

/-- The methods that a type declares itself. -/
def methodsOf (m : Module) (t : TypeId) : List MethodId := (m.type? t).elim [] (·.methods)

theorem isNamed_of_isOverload (h : m.isOverload name shape i = true) : m.isNamed name i = true :=
  (Bool.and_eq_true_iff.mp h).1

theorem isNamed_iff : m.isNamed name i = true ↔ ∃ c, m.method? i = some c ∧ c.name = name := by
  cases hi : m.method? i <;> simp [isNamed, hi]

theorem isOverload_iff :
    m.isOverload name shape i = true ↔ ∃ c, m.method? i = some c ∧ c.name = name ∧ shape c = true := by
  cases hi : m.method? i <;> simp [isOverload, isNamed, hi]

theorem methodInLine?_eq_find?_isNamed (m : Module) (t : TypeId) (name : String) :
    m.methodInLine? t name = (m.methodsInLine t).find? (m.isNamed name) :=
  List.find?_flatMap.symm

theorem overloadInLine?_eq_find? (m : Module) (t : TypeId) (name : String) (shape : Method → Bool) :
    m.overloadInLine? t name shape = (m.methodsInLine t).find? (m.isOverload name shape) :=
  List.find?_flatMap.symm

theorem filter_methodInLine?_eq (m : Module) (t : TypeId) (name : String) (shape : Method → Bool) :
    (m.methodInLine? t name).filter (fun i => (m.method? i).any shape)
      = ((m.methodsInLine t).find? (m.isNamed name)).filter (m.isOverload name shape) := by
  rw [methodInLine?_eq_find?_isNamed]
  exact filter_find?_and

theorem bind_methodNamed?_eq_find? (m : Module) (t : TypeId) (name : String) :
    ((m.type? t).bind fun d => m.methodNamed? d name) = (m.methodsOf t).find? (m.isNamed name) := by
  unfold methodsOf
  cases m.type? t <;> rfl

theorem overload?_eq_find? (m : Module) (t : TypeId) (name : String) (shape : Method → Bool) :
    m.overload? t name shape = (m.methodsOf t).find? (m.isOverload name shape) := by
  unfold overload? methodsOf
  cases m.type? t <;> rfl

end Module

namespace Resolver

variable {m : Module} {typeName member : String} {count : Nat} {t : TypeId} {i : MethodId}

/-- The answer of a lookup in a type of the runtime surface. -/
def answer (m : Module) (typeName member : String) (find : TypeId → Option MethodId) : Except Error MethodId := do
  let t ← m.require typeName
  match find t with
  | some i => .ok i
  | none => .error (.unresolved (typeName ++ "::" ++ member))

/-- The comparison that is meant is static and has two parameters. -/
def meantEquals (m : Module) : Except Error MethodId :=
  answer m Surface.object Surface.equals fun t => m.overloadInLine? t Surface.equals Method.isComparison

/-- The constructor that is meant takes that many arguments. -/
def meantConstructor (typeName : String) (count : Nat) (m : Module) : Except Error MethodId :=
  answer m typeName Surface.constructor fun t => m.overload? t Surface.constructor (Method.takes count)

/-! ## Answers -/

section

variable {find find' : TypeId → Option MethodId}

theorem answer_of_require (ht : m.find? typeName = some t) :
    answer m typeName member find
      = (match find t with
        | some i => .ok i
        | none => .error (.unresolved (typeName ++ "::" ++ member))) := by
  unfold answer Module.require
  rw [ht]
  rfl

theorem answer_of_missing (ht : m.find? typeName = none) :
    answer m typeName member find = .error (.unresolved typeName) := by
  unfold answer Module.require
  rw [ht]
  rfl

theorem answer_eq_ok_iff :
    answer m typeName member find = .ok i ↔ ∃ t, m.find? typeName = some t ∧ find t = some i := by
  cases ht : m.find? typeName with
  | none => simp [answer_of_missing ht]
  | some t =>
    rw [answer_of_require ht]
    cases hfound : find t <;> simp [hfound]

theorem answer_eq_error_iff {e : Error} :
    answer m typeName member find = .error e
      ↔ (m.find? typeName = none ∧ e = .unresolved typeName)
        ∨ ∃ t, m.find? typeName = some t ∧ find t = none ∧ e = .unresolved (typeName ++ "::" ++ member) := by
  cases ht : m.find? typeName with
  | none => simp [answer_of_missing ht, eq_comm]
  | some t =>
    rw [answer_of_require ht]
    cases hfound : find t <;> simp [hfound, eq_comm]

theorem answer_eq_answer_iff :
    answer m typeName member find = answer m typeName member find'
      ↔ ∀ t, m.find? typeName = some t → find t = find' t := by
  cases ht : m.find? typeName with
  | none => simp [answer_of_missing ht]
  | some t =>
    rw [answer_of_require ht, answer_of_require ht]
    cases hfind : find t <;> cases hfind' : find' t <;> simp [hfind, hfind']

end

theorem equalsOf_eq_answer (m : Module) :
    equalsOf m = answer m Surface.object Surface.equals fun t =>
      ((m.methodsInLine t).find? (m.isNamed Surface.equals)).filter
        (m.isOverload Surface.equals Method.isComparison) :=
  congrArg (answer m Surface.object Surface.equals) (funext fun t =>
    Module.filter_methodInLine?_eq m t Surface.equals Method.isComparison)

theorem constructorOf_eq_answer (typeName : String) (m : Module) :
    constructorOf typeName m = answer m typeName Surface.constructor fun t =>
      (m.methodsOf t).find? (m.isNamed Surface.constructor) :=
  congrArg (answer m typeName Surface.constructor) (funext fun t =>
    Module.bind_methodNamed?_eq_find? m t Surface.constructor)

/-! ## What is answered -/

theorem meantEquals_of_equalsOf (h : equalsOf m = .ok i) : meantEquals m = .ok i := by
  rw [equalsOf_eq_answer, answer_eq_ok_iff] at h
  obtain ⟨t, ht, hi⟩ := h
  refine answer_eq_ok_iff.mpr ⟨t, ht, ?_⟩
  rw [Module.overloadInLine?_eq_find?]
  exact find?_of_filter (fun _ => Module.isNamed_of_isOverload) hi

/-- The lookup of the comparison is right exactly if no other method of the name comes before the meant one. -/
theorem equalsOf_eq_meant_iff :
    equalsOf m = meantEquals m
      ↔ ∀ t i, m.find? Surface.object = some t →
          m.overloadInLine? t Surface.equals Method.isComparison = some i →
          m.methodInLine? t Surface.equals = some i := by
  simp only [equalsOf_eq_answer, meantEquals, answer_eq_answer_iff, Module.overloadInLine?_eq_find?,
    Module.methodInLine?_eq_find?_isNamed]
  refine forall_congr' fun t => ?_
  rw [filter_find?_eq_iff fun _ => Module.isNamed_of_isOverload]
  exact ⟨fun h i ht => h ht i, fun h ht i => h i ht⟩

theorem equalsOf_of_ne_meant (h : equalsOf m ≠ meantEquals m) :
    equalsOf m = .error (.unresolved (Surface.object ++ "::" ++ Surface.equals)) := by
  cases hanswer : equalsOf m with
  | ok i => exact absurd (hanswer.trans (meantEquals_of_equalsOf hanswer).symm) h
  | error e =>
    rw [equalsOf_eq_answer, answer_eq_error_iff] at hanswer
    obtain ⟨ht, -⟩ | ⟨t, -, -, rfl⟩ := hanswer
    · rw [equalsOf_eq_answer, meantEquals, answer_of_missing ht, answer_of_missing ht] at h
      exact absurd rfl h
    · rfl

/-- The lookup of a constructor is right exactly if the first constructor of the type takes as many arguments,
or the type has none. -/
theorem constructorOf_eq_meant_iff :
    constructorOf typeName m = meantConstructor typeName count m
      ↔ ∀ i, constructorOf typeName m = .ok i →
          m.isOverload Surface.constructor (Method.takes count) i = true := by
  simp only [constructorOf_eq_answer, meantConstructor, answer_eq_answer_iff, answer_eq_ok_iff,
    Module.overload?_eq_find?, find?_eq_find?_iff fun _ => Module.isNamed_of_isOverload]
  exact ⟨fun h i ⟨t, ht, hi⟩ => h t ht i hi, fun h t ht i hi => h i ⟨t, ht, hi⟩⟩

theorem constructorOf_of_ne_meant
    (h : constructorOf typeName m ≠ meantConstructor typeName count m) :
    ∃ t i c, m.find? typeName = some t ∧ i ∈ m.methodsOf t ∧ constructorOf typeName m = .ok i
      ∧ m.method? i = some c ∧ c.name = Surface.constructor ∧ c.params.length ≠ count := by
  rw [Ne, constructorOf_eq_meant_iff, not_forall] at h
  obtain ⟨i, h⟩ := h
  obtain ⟨hanswer, hshape⟩ := Classical.not_imp.mp h
  have hfound := hanswer
  rw [constructorOf_eq_answer, answer_eq_ok_iff] at hfound
  obtain ⟨t, ht, hi⟩ := hfound
  obtain ⟨c, hc, hname⟩ := Module.isNamed_iff.mp (List.find?_some hi)
  refine ⟨t, i, c, ht, List.mem_of_find?_eq_some hi, hanswer, hc, hname, fun hcount => hshape ?_⟩
  exact Module.isOverload_iff.mpr ⟨c, hc, hname, beq_iff_eq.mpr hcount⟩

/-! ## The three lookups -/

/-- A lookup of a constructor with so many parameters takes the first one whatever its parameters are: it is
right exactly if that one has so many, it is wrong only by answering one that has not, and it is right
whenever it fails. -/
structure TakesFirst (lookup : Module → Except Error MethodId) (typeName : String) (count : Nat) (m : Module) :
    Prop where
  right_iff : lookup m = meantConstructor typeName count m
    ↔ ∀ i, lookup m = .ok i → m.isOverload Surface.constructor (Method.takes count) i = true
  wrong : lookup m ≠ meantConstructor typeName count m →
    ∃ t i c, m.find? typeName = some t ∧ i ∈ m.methodsOf t ∧ lookup m = .ok i ∧ m.method? i = some c
      ∧ c.name = Surface.constructor ∧ c.params.length ≠ count
  failing : ∀ e, lookup m = .error e → meantConstructor typeName count m = .error e

theorem constructorOf_takesFirst (typeName : String) (count : Nat) (m : Module) :
    TakesFirst (constructorOf typeName) typeName count m where
  right_iff := constructorOf_eq_meant_iff
  wrong := constructorOf_of_ne_meant
  failing := fun e he => by
    rw [← he, eq_comm, constructorOf_eq_meant_iff]
    intro i hi
    rw [he] at hi
    cases hi

/-- **Overloads.** In every module, the lookup of the comparison answers the meant one or fails. It is right
exactly if no other method of the name comes before the meant one along the line of the root type, and where it
is not it fails as if there were none. The lookups of the two constructors take the first of their type, and are
right exactly if that has the number of parameters that is needed. -/
theorem standard_overloads (m : Module) :
    (∀ i, standard.objectEquals m = .ok i → meantEquals m = .ok i)
      ∧ (standard.objectEquals m = meantEquals m
        ↔ ∀ t i, m.find? Surface.object = some t →
            m.overloadInLine? t Surface.equals Method.isComparison = some i →
            m.methodInLine? t Surface.equals = some i)
      ∧ (standard.objectEquals m ≠ meantEquals m →
        standard.objectEquals m = .error (.unresolved (Surface.object ++ "::" ++ Surface.equals)))
      ∧ TakesFirst standard.handlerConstructor Surface.eventHandler 2 m
      ∧ TakesFirst standard.eventArgsConstructor Surface.eventArgs 1 m :=
  ⟨fun _ => meantEquals_of_equalsOf, equalsOf_eq_meant_iff, equalsOf_of_ne_meant,
    constructorOf_takesFirst Surface.eventHandler 2 m, constructorOf_takesFirst Surface.eventArgs 1 m⟩

/-! ## Surfaces with overloads -/

/-- A method of the surface without code. -/
def bare (token : UInt32) (name : String) (modifiers : Modifiers) (params : Nat) (owner : TypeId) : Method where
  token := ⟨token⟩
  name
  access := .publicAccess
  modifiers
  params := List.replicate params ⟨"value", ⟨0⟩⟩
  returns := none
  owner := some owner
  body := none

/-- The root type declares a method to compare itself with an object in front of the comparison of two objects.
Handlers have a constructor without parameters in front of the one that takes two arguments, and the arguments
of the event have no other. -/
def overloaded : Module where
  name := "Overloaded"
  types := #[some ⟨⟨10⟩, "System", "Object", .object, true, none, [], [], [⟨0⟩, ⟨1⟩], [], [], []⟩,
    some ⟨⟨11⟩, "System.ComponentModel", "PropertyChangedEventHandler", .classType, true, some ⟨0⟩, [], [],
      [⟨2⟩, ⟨3⟩], [], [], []⟩,
    some ⟨⟨12⟩, "System.ComponentModel", "PropertyChangedEventArgs", .classType, true, some ⟨0⟩, [], [],
      [⟨4⟩], [], [], []⟩]
  methods := #[some (bare 30 Surface.equals .virtualBit 1 ⟨0⟩), some (bare 31 Surface.equals .staticBit 2 ⟨0⟩),
    some (bare 32 Surface.constructor .hideBySig 0 ⟨1⟩), some (bare 33 Surface.constructor .hideBySig 2 ⟨1⟩),
    some (bare 34 Surface.constructor .hideBySig 0 ⟨2⟩)]
  registry := ((Registry.insert {} ⟨10⟩ Surface.object ⟨0⟩).insert ⟨11⟩ Surface.eventHandler ⟨1⟩).insert ⟨12⟩
    Surface.eventArgs ⟨2⟩

/-- There the comparison is missed, the constructor of handlers is the wrong one, and one without parameters
passes for the constructor of arguments. -/
theorem overloads_in_front :
    (meantEquals overloaded = .ok ⟨1⟩
        ∧ standard.objectEquals overloaded = .error (.unresolved (Surface.object ++ "::" ++ Surface.equals)))
      ∧ (meantConstructor Surface.eventHandler 2 overloaded = .ok ⟨3⟩
        ∧ standard.handlerConstructor overloaded = .ok ⟨2⟩)
      ∧ meantConstructor Surface.eventArgs 1 overloaded
          = .error (.unresolved (Surface.eventArgs ++ "::" ++ Surface.constructor))
        ∧ standard.eventArgsConstructor overloaded = .ok ⟨4⟩ := by
  refine ⟨⟨?_, ?_⟩, ⟨?_, ?_⟩, ?_, ?_⟩ <;> rfl

end Resolver

end SetterLoom
