import SetterLoom.Proofs.Machine.Running

/-!
# Nothing dangles

A state is closed if everything in its heap and in its trace is made of references to objects that are
there and of pointers that stand for methods with these tokens. Objects never go away, and a pointer is made
known before code gets hold of it; so a closed state stays closed whatever is asked of the machine, also
when it fails.

* `Machine.Closed`: the invariant; `Closed.push`, `Closed.put`, `Closed.load` keep it.
* `Module.closure`: closed states as an upkeep.
* `Request.run_closed`: a closed request to a machine in a closed state leaves a closed state.
-/

namespace SetterLoom
set_option autoImplicit false

namespace Machine

variable {m : Module} {s t u : Machine}

/-- What code may get hold of: references to objects, and pointers that stand for a method. -/
def scope (m : Module) (s : Machine) : Scope where
  ref r := ∃ o, s.heap.get? r = some o
  pointer t := ∃ i d, s.functions.get? t = some i ∧ m.method? i = some d ∧ d.token = t

/-- Nothing in the heap or in the trace dangles. -/
structure Closed (m : Module) (s : Machine) : Prop where
  objects : (s.scope m).Heap s.heap
  events : ∀ e ∈ s.trace, (s.scope m).Event e

/-- The next state has all that was there. -/
structure Grown (m : Module) (s t : Machine) : Prop where
  executed : s.executed ≤ t.executed
  scope : (s.scope m).Le (t.scope m)

theorem Grown.refl : s.Grown m s := ⟨Nat.le_refl _, fun _ => id, fun _ => id⟩

theorem Grown.trans (h : s.Grown m t) (h' : t.Grown m u) : s.Grown m u :=
  ⟨Nat.le_trans h.executed h'.executed, fun r hr => h'.scope.ref r (h.scope.ref r hr),
    fun q hq => h'.scope.pointer q (h.scope.pointer q hq)⟩

theorem closed_of_empty (hheap : s.heap.size = 0) (htrace : s.trace = #[]) : s.Closed m := by
  refine ⟨fun r o hr => ?_, fun e he => ?_⟩
  · have hsize := Heap.get?_eq_some hr
    omega
  · rw [htrace] at he
    exact absurd he (Array.not_mem_empty e)

theorem grown_push (o : HeapObject) : s.Grown m { s with heap := s.heap.push o } := by
  refine ⟨Nat.le_refl _, ?_, fun _ => id⟩
  rintro r ⟨x, hr⟩
  exact ⟨x, (s.heap.get?_push_old o (Heap.get?_eq_some hr).2).trans hr⟩

theorem ref_push (o : HeapObject) :
    (({ s with heap := s.heap.push o } : Machine).scope m).ref s.heap.next :=
  ⟨o, s.heap.get?_push_new o⟩

theorem Closed.push (h : s.Closed m) {o : HeapObject} (ho : (s.scope m).Object o) :
    ({ s with heap := s.heap.push o } : Machine).Closed m :=
  have hgrown := grown_push (m := m) (s := s) o
  ⟨(hgrown.scope.heap h.objects).push (hgrown.scope.object ho),
    fun e he => hgrown.scope.event (h.events e he)⟩

theorem grown_put (r : HeapRef) (f : Token) (v : Value) (hr : 0 < r.id) :
    s.Grown m { s with heap := s.heap.put r f v } := by
  refine ⟨Nat.le_refl _, ?_, fun _ => id⟩
  rintro q ⟨x, hq⟩
  refine ⟨if q = r then x.put f v else x, ?_⟩
  rw [Heap.get?_put _ _ _ _ _ hr, hq]
  split <;> rfl

theorem Closed.put (h : s.Closed m) {r : HeapRef} {f type : Token} {v : Value}
    {fields : TokenMap Value} (hr : s.heap.get? r = some (.object type fields))
    (hv : (s.scope m).Value v) : ({ s with heap := s.heap.put r f v } : Machine).Closed m :=
  have hgrown := grown_put (m := m) (s := s) r f v (Heap.get?_eq_some hr).1
  ⟨(hgrown.scope.heap h.objects).put hr (hgrown.scope.value hv),
    fun e he => hgrown.scope.event (h.events e he)⟩

theorem Closed.record (h : s.Closed m) {e : TraceEvent} (he : (s.scope m).Event e) :
    ({ s with trace := s.trace.push e } : Machine).Closed m := by
  refine ⟨h.objects, fun x hx => ?_⟩
  rcases Array.mem_push.mp hx with hx | rfl
  · exact h.events x hx
  · exact he

theorem Closed.functions (h : s.Closed m) {functions : TokenMap MethodId}
    (hgrown : s.Grown m { s with functions }) : ({ s with functions } : Machine).Closed m :=
  ⟨hgrown.scope.heap h.objects, fun e he => hgrown.scope.event (h.events e he)⟩

variable {i : MethodId} {d : Method} (hd : m.method? i = some d)
include hd

theorem grown_load : s.Grown m { s with functions := s.functions.insert d.token i } := by
  refine ⟨Nat.le_refl _, fun _ => id, ?_⟩
  rintro q ⟨j, e, hj, he, rfl⟩
  by_cases hq : e.token = d.token
  · exact ⟨i, d, by rw [hq, TokenMap.get?_insert_self], hd, hq.symm⟩
  · exact ⟨j, e, by rw [TokenMap.get?_insert_ne _ _ hq]; exact hj, he, rfl⟩

theorem pointer_load :
    (({ s with functions := s.functions.insert d.token i } : Machine).scope m).pointer d.token :=
  ⟨i, d, TokenMap.get?_insert_self _ _ _, hd, rfl⟩

theorem grown_know : s.Grown m { s with functions := s.functions.insertNew d.token i } := by
  unfold TokenMap.insertNew
  split
  · exact .refl
  · exact grown_load hd

end Machine

/-- Closed states, whose failures are not those of something that dangles. -/
def Module.closure (m : Module) : Upkeep m where
  scope s := s.scope m
  le s t := s.Grown m t
  inv s := s.hooks = Machine.withRuntimeMembers.hooks ∧ s.Closed m
  failed s e t := s.Grown m t ∧ (t.hooks = Machine.withRuntimeMembers.hooks ∧ t.Closed m)
    ∧ e.dangles = false
  Loads _ := True
  Handles _ := True
  loads _ _ _ _ _ _ := trivial
  handles _ _ _ := trivial
  hooks h := h.1
  refl _ := .refl
  trans := .trans
  executed h := h.executed
  grow h := h.scope
  failed_of_le h h' := ⟨h.trans h'.1, h'.2⟩
  lookup h _ hr := h.2.objects _ _ hr
  push h ho := ⟨Machine.grown_push _, ⟨h.1, h.2.push ho⟩, Machine.ref_push _⟩
  put h _ hv hr := ⟨Machine.grown_put _ _ _ (Heap.get?_eq_some hr).1, h.1, h.2.put hr hv⟩
  record h he := ⟨⟨Nat.le_refl _, fun _ => id, fun _ => id⟩, h.1, h.2.record he⟩
  know h hd := ⟨Machine.grown_know hd, h.1, h.2.functions (Machine.grown_know hd)⟩
  load h hd _ := ⟨Machine.grown_load hd, ⟨h.1, h.2.functions (Machine.grown_load hd)⟩,
    Machine.pointer_load hd⟩
  count h _ := ⟨⟨Nat.le_succ _, fun _ => id, fun _ => id⟩, h.1, h.2.objects, h.2.events⟩
  scope_depth _ _ := rfl
  inv_depth h := ⟨h.1, h.2.objects, h.2.events⟩
  nest h := ⟨h.executed, h.scope⟩
  failed_nest h := ⟨⟨h.1.executed, h.1.scope⟩, ⟨h.2.1.1, h.2.1.2.objects, h.2.1.2.events⟩, h.2.2⟩
  fails h he _ := ⟨.refl, h, he⟩
  dangling _ hr hnone := by
    obtain ⟨o, ho⟩ := hr
    rw [hnone] at ho
    cases ho
  unknown _ ht hnone := by
    obtain ⟨i, d, hi, -⟩ := ht
    rw [hnone] at hi
    cases hi
  exceeds h _ := ⟨⟨Nat.le_succ _, fun _ => id, fun _ => id⟩,
    ⟨h.1, h.2.objects, h.2.events⟩, Machine.dangles_exhausted⟩
  wraps h := h

/-- What can be asked of a machine. -/
inductive Request where
  | invoke (i : MethodId) (this : Option Value) (arguments : List Value)
  | construct (i : MethodId) (arguments : List Value)
  | invokeDelegate (r : HeapRef) (arguments : List Value)
  | getProperty (r : HeapRef) (p : Property)
  | setProperty (r : HeapRef) (p : Property) (v : Value)

namespace Request

/-- What the machine does about it. -/
def run (m : Module) : Request → Action Value
  | .invoke i this arguments => Action.invoke m i this arguments
  | .construct i arguments => Action.construct m (Action.invoke m) i arguments
  | .invokeDelegate r arguments => do
    Action.invokeDelegate (Action.invoke m) r arguments
    return .void
  | .getProperty r p => Action.getProperty m r p
  | .setProperty r p v => do
    Action.setProperty m r p v
    return .void

theorem run_invoke (m : Module) (i : MethodId) (this : Option Value) (arguments : List Value) :
    run m (.invoke i this arguments) = Action.invoke m i this arguments := rfl

/-- What it is asked with is there. -/
def Closed (S : Scope) : Request → Prop
  | .invoke _ this arguments => (∀ v, this = some v → S.Value v) ∧ ∀ v ∈ arguments, S.Value v
  | .construct _ arguments => ∀ v ∈ arguments, S.Value v
  | .invokeDelegate r arguments => S.ref r ∧ ∀ v ∈ arguments, S.Value v
  | .getProperty r _ => S.ref r
  | .setProperty r _ v => S.ref r ∧ S.Value v

end Request

namespace Module

variable {m : Module} {s t : Machine}

theorem closed_of_agree {a : Action Value}
    (h : m.closure.Agree s (fun u v => (u.scope m).Value v) a a) {result : Except Error Value}
    (hrun : a.run.run s = (result, t)) :
    t.hooks = Machine.withRuntimeMembers.hooks ∧ t.Closed m ∧ (s.scope m).Le (t.scope m)
      ∧ (∀ v, result = .ok v → (t.scope m).Value v) ∧ ∀ e, result = .error e → e.dangles = false := by
  have houtcome := h.outcome
  rw [hrun] at houtcome
  cases result with
  | error e =>
    obtain ⟨hgrown, ⟨hhooks, hclosed⟩, he⟩ := houtcome
    exact ⟨hhooks, hclosed, hgrown.scope, fun v hv => (nomatch hv), fun x hx => Except.error.inj hx ▸ he⟩
  | ok v =>
    obtain ⟨hgrown, ⟨hhooks, hclosed⟩, hv⟩ := houtcome
    exact ⟨hhooks, hclosed, hgrown.scope, fun x hx => Except.ok.inj hx ▸ hv, fun e he => (nomatch he)⟩

end Module

namespace Request

variable {m : Module} {s t : Machine} {q : Request}

theorem agree_run (hs : m.closure.inv s) (hq : q.Closed (s.scope m)) :
    m.closure.Agree s (fun u v => (u.scope m).Value v) (q.run m) (q.run m) := by
  have hcalls := Upkeep.calls_invoke (U := m.closure) s
  have hinvoke : ∀ i r arguments, (s.scope m).ref r → (∀ v ∈ arguments, (s.scope m).Value v) →
      m.closure.Agree s (fun u v => (u.scope m).Value v) (Action.invoke m i (some (.ref r)) arguments)
        (Action.invoke m i (some (.ref r)) arguments) :=
    fun i r arguments hr harguments =>
      hcalls (m.closure.refl s) hs (fun v hv => Option.some.inj hv ▸ hr) harguments
  cases q with
  | invoke i this arguments => exact hcalls (m.closure.refl s) hs hq.1 hq.2
  | construct i arguments => exact Upkeep.agree_construct hs hcalls.to hq
  | invokeDelegate r arguments =>
    exact (Upkeep.agree_invokeDelegate hs hcalls.to hq.1 hq.2).bind
      fun u _ _ hu _ => Upkeep.agree_pure hu trivial
  | getProperty r p =>
    cases hp : p.getter with
    | none =>
      simp only [run, Action.getProperty, hp]
      exact Upkeep.agree_throw hs rfl rfl
    | some i =>
      simp only [run, Action.getProperty, hp]
      exact hinvoke i r [] hq fun v hv => nomatch hv
  | setProperty r p v =>
    cases hp : p.setter with
    | none =>
      simp only [run, Action.setProperty, hp]
      have hmissing : m.closure.Agree s (fun _ _ => True)
          (throw (.missingAccessor p.name .set) : Action Unit)
          (throw (.missingAccessor p.name .set)) :=
        Upkeep.agree_throw hs rfl rfl
      exact hmissing.bind fun u _ _ hu _ => Upkeep.agree_pure hu trivial
    | some i =>
      simp only [run, Action.setProperty, hp]
      have hset : m.closure.Agree s (fun _ _ => True) (discard (Action.invoke m i (some (.ref r)) [v]))
          (discard (Action.invoke m i (some (.ref r)) [v])) :=
        (hinvoke i r [v] hq.1 fun w hw => List.mem_singleton.mp hw ▸ hq.2).map
          fun _ _ _ _ _ => trivial
      exact hset.bind fun u _ _ hu _ => Upkeep.agree_pure hu trivial

/-- A machine in a closed state that is asked for something with what is there ends in a closed state,
whatever the bodies do and however it ends. What it returns is there, and an error never comes from a
reference to nothing or from a pointer to no method. -/
theorem run_closed (m : Module) {s t : Machine} {q : Request} {result : Except Error Value}
    (hhooks : s.hooks = Machine.withRuntimeMembers.hooks) (hs : s.Closed m)
    (hq : q.Closed (s.scope m)) (hrun : (q.run m).run.run s = (result, t)) :
    t.hooks = Machine.withRuntimeMembers.hooks ∧ t.Closed m ∧ (s.scope m).Le (t.scope m)
      ∧ (∀ v, result = .ok v → (t.scope m).Value v) ∧ ∀ e, result = .error e → e.dangles = false :=
  Module.closed_of_agree (agree_run ⟨hhooks, hs⟩ hq) hrun

end Request

/-! ## An object that listens to itself -/

namespace Echo

def handlers : Field := ⟨⟨1⟩, Surface.changedEvent, .privateBit, ⟨3⟩⟩

def name : Field := ⟨⟨2⟩, Surface.nameField, .privateBit, ⟨0⟩⟩

def changed : Event := ⟨⟨21⟩, Surface.changedEvent, ⟨3⟩, some ⟨0⟩, some ⟨1⟩⟩

def method (token : UInt32) (name : String) (params : Nat) (owner : TypeId) (ops : List Op := []) :
    Method where
  token := ⟨token⟩
  name
  access := .publicAccess
  modifiers := .hideBySig
  params := List.replicate params ⟨"value", ⟨0⟩⟩
  returns := none
  owner := some owner
  body := if ops = [] then none else some (.ofCode (ops.mapIdx fun k op => ⟨.written (.ofNat k), op⟩))

/-- Nodes raise their event through a method that is called as its handlers are, with the sender and the
event arguments. A node that listens makes the given method a handler of its own event. -/
def module (handler : MethodId) : Module where
  name := "Echo"
  types := #[some ⟨⟨10⟩, "System", "Object", .object, true, none, [], [], [], [], [], []⟩,
    some ⟨⟨11⟩, "", "Node", .classType, false, none, [], [handlers], [⟨0⟩, ⟨1⟩, ⟨2⟩, ⟨3⟩, ⟨6⟩], [],
      [changed], []⟩,
    some ⟨⟨12⟩, "System", "MulticastDelegate", .classType, true, none, [], [], [], [], [], []⟩,
    some ⟨⟨13⟩, "System.ComponentModel", "PropertyChangedEventHandler", .classType, true, some ⟨2⟩,
      [], [], [⟨4⟩], [], [], []⟩,
    some ⟨⟨14⟩, "System.ComponentModel", "PropertyChangedEventArgs", .classType, true, none, [],
      [name], [⟨5⟩], [], [], []⟩]
  methods := #[some (method 30 (Surface.adder Surface.changedEvent) 1 ⟨1⟩),
    some (method 31 (Surface.remover Surface.changedEvent) 1 ⟨1⟩),
    some (method 32 Surface.raiser 2 ⟨1⟩),
    some (method 33 "Listen" 0 ⟨1⟩
      [.ldarg 0, .ldarg 0, .ldftn handler, .newobj ⟨4⟩, .callvirt ⟨0⟩, .ret]),
    some (method 34 Surface.constructor 2 ⟨3⟩),
    some (method 35 Surface.constructor 1 ⟨4⟩ [.ldarg 0, .ldarg 1, .stfld name, .ret]),
    some (method 36 "Hear" 2 ⟨1⟩ [.ret])]
  registry := (Registry.insert {} ⟨11⟩ "Node" ⟨1⟩).insert ⟨14⟩ Surface.eventArgs ⟨4⟩

/-- A machine for a number of instructions, without objects. -/
def start (limit : Nat) : Machine := { Machine.withRuntimeMembers with limit }

/-- A machine with a node and a name. -/
def machine (limit : Nat) : Machine :=
  { start limit with heap := ((start limit).heap.push (.object ⟨11⟩ .empty)).push (.string "Name") }

theorem closed_machine (handler : MethodId) (limit : Nat) :
    (machine limit).Closed (module handler) := by
  have hempty : ((start limit).scope (module handler)).Object (.object ⟨11⟩ .empty) := by
    intro f v hv
    rw [TokenMap.get?_empty] at hv
    cases hv
  exact ((Machine.closed_of_empty (s := start limit) rfl rfl).push hempty).push (o := .string "Name")
    trivial

/-- The sender and the name of a property, with which the node is told of a change. -/
def change : List Value := [.null, .ref ⟨2⟩]

def node : Value := .ref ⟨1⟩

/-- The machine when the node has begun to listen to itself. -/
def listening (handler : MethodId) (limit : Nat) : Except Error Value × Machine :=
  (Action.invoke (module handler) ⟨3⟩ (some node) []).run.run (machine limit)

end Echo

namespace Request

/-- The node begins to listen. -/
theorem run_closed_listen :
    (Echo.listening ⟨2⟩ 600).1 = .ok .void
      ∧ (Echo.listening ⟨2⟩ 600).2.Closed (Echo.module ⟨2⟩) := by
  have hhooks : (Echo.machine 600).hooks = Machine.withRuntimeMembers.hooks := rfl
  have hnode : Closed ((Echo.machine 600).scope (Echo.module ⟨2⟩)) (.invoke ⟨3⟩ (some Echo.node) []) :=
    ⟨fun v hv => Option.some.inj hv ▸ ⟨_, rfl⟩, fun v hv => by cases hv⟩
  have hrun : (run (Echo.module ⟨2⟩) (.invoke ⟨3⟩ (some Echo.node) [])).run.run (Echo.machine 600)
      = ((Echo.listening ⟨2⟩ 600).1, (Echo.listening ⟨2⟩ 600).2) := by
    rw [run_invoke, Prod.eta, Echo.listening]
  exact ⟨by decide +kernel,
    (run_closed (Echo.module ⟨2⟩) hhooks (Echo.closed_machine ⟨2⟩ 600) hnode hrun).2.1⟩

end Request

end SetterLoom
