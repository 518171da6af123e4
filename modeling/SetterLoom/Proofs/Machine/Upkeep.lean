import SetterLoom.Proofs.Machine.Calling

/-!
# What runs keep, however they end

A call may fail anywhere, and what it did until then stays done. An upkeep is what states are held to all
the same: which references and pointers code may have got hold of, what may become of a state, and what a
failure may come to.

Calls are made by a parameter of everything that runs. Two actions agree in a state if they do the same
there, although they may make their calls differently, and if what they leave is held to the upkeep. So an
action that agrees with itself is one that keeps the upkeep.

* `Agree.bind`: actions made of agreeing actions agree.
* `agree_heap_get`, `agree_alloc`, `agree_setField`: the primitive actions.
-/

namespace SetterLoom
set_option autoImplicit false

/-- Whether the cause of an error is a reference to nothing or a pointer to no method. -/
def Error.dangles : Error → Bool
  | .emulation (.danglingRef _) | .emulation (.unknownPointer _) => true
  | .weave _ _ cause | .runtimeMember _ _ cause => cause.dangles
  | _ => false

/-- Whether the cause of an error is that the counter of instructions was full. -/
def Error.overflows : Error → Bool
  | .emulation (.countOverflow _) => true
  | .weave _ _ cause | .runtimeMember _ _ cause => cause.overflows
  | _ => false

theorem Machine.dangles_exhausted {s : Machine} {name : String} :
    (Error.emulation (s.exhausted name)).dangles = false := by
  unfold Machine.exhausted
  split <;> rfl

/-- Which references and pointers code may have got hold of. -/
structure Scope where
  ref : HeapRef → Prop
  pointer : Token → Prop

namespace Scope

/-- A value is made of nothing else. -/
def Value (S : Scope) : SetterLoom.Value → Prop
  | .ref r | .address r _ => S.ref r
  | .function t => S.pointer t
  | .void | .int _ | .null | .struct _ => True

/-- A place of a list of handlers. -/
structure Invocation (S : Scope) (i : SetterLoom.Invocation) : Prop where
  target : ∀ r, i.target = some r → S.ref r
  method : S.pointer i.method

/-- An object. -/
def Object (S : Scope) : HeapObject → Prop
  | .string _ => True
  | .object _ fields => ∀ f v, fields.get? f = some v → S.Value v
  | .boxed _ v => S.Value v
  | .delegate _ list => ∀ i ∈ list, S.Invocation i

/-- All objects. -/
def Heap (S : Scope) (h : SetterLoom.Heap) : Prop := ∀ r o, h.get? r = some o → S.Object o

/-- An event of the trace. -/
def Event (S : Scope) : TraceEvent → Prop
  | .called _ => True
  | .notified r _ before after =>
    S.ref r ∧ (∀ v, before = some v → S.Value v) ∧ ∀ v, after = some v → S.Value v
  | .subscribed r l | .unsubscribed r l => S.ref r ∧ ∀ q, l = some q → S.ref q

/-- The frame of a running body. -/
structure Frame (S : Scope) (f : SetterLoom.Frame) : Prop where
  arguments : ∀ v ∈ f.arguments, S.Value v
  slots : ∀ v ∈ f.slots, S.Value v
  stack : ∀ v ∈ f.stack, S.Value v

/-- How a body goes on. -/
def Step (S : Scope) : SetterLoom.Step → Prop
  | .next f | .jump _ f => S.Frame f
  | .done v => S.Value v

/-- All that is in one scope is in the other one. -/
structure Le (S T : Scope) : Prop where
  ref : ∀ r, S.ref r → T.ref r
  pointer : ∀ t, S.pointer t → T.pointer t

variable {S T : Scope}

theorem Le.value (h : S.Le T) {v : SetterLoom.Value} (hv : S.Value v) : T.Value v := by
  cases v with
  | ref r => exact h.ref r hv
  | address r f => exact h.ref r hv
  | function t => exact h.pointer t hv
  | void | int | null | struct => trivial

theorem Le.invocation (h : S.Le T) {i : SetterLoom.Invocation} (hi : S.Invocation i) :
    T.Invocation i :=
  ⟨fun r hr => h.ref r (hi.target r hr), h.pointer _ hi.method⟩

theorem Le.object (h : S.Le T) {o : HeapObject} (ho : S.Object o) : T.Object o := by
  cases o with
  | string => trivial
  | object type fields => exact fun f v hv => h.value (ho f v hv)
  | boxed type v => exact h.value ho
  | delegate type list => exact fun i hi => h.invocation (ho i hi)

theorem Le.heap (h : S.Le T) {heap : SetterLoom.Heap} (hheap : S.Heap heap) : T.Heap heap :=
  fun r o hr => h.object (hheap r o hr)

theorem Heap.push {h : SetterLoom.Heap} (hh : S.Heap h) {o : HeapObject} (ho : S.Object o) :
    S.Heap (h.push o) := by
  intro r x hr
  by_cases hold : r.id ≤ h.size
  · exact hh r x ((h.get?_push_old o hold).symm.trans hr)
  · exact (SetterLoom.Heap.eq_next_of_get?_push hr hold).2 ▸ ho

theorem Heap.put {h : SetterLoom.Heap} (hh : S.Heap h) {r : HeapRef} {f type : Token}
    {v : SetterLoom.Value} {fields : TokenMap SetterLoom.Value}
    (hr : h.get? r = some (.object type fields)) (hv : S.Value v) : S.Heap (h.put r f v) := by
  intro q x hq
  rw [SetterLoom.Heap.get?_put _ _ _ _ _ (SetterLoom.Heap.get?_eq_some hr).1] at hq
  split at hq
  · rename_i heq
    subst heq
    rw [hr] at hq
    obtain rfl := Option.some.inj hq
    intro g w hw
    rw [TokenMap.get?_insert] at hw
    split at hw
    · exact Option.some.inj hw ▸ hv
    · exact hh q _ hr g w hw
  · exact hh q x hq

theorem Le.event (h : S.Le T) {e : TraceEvent} (he : S.Event e) : T.Event e := by
  cases e with
  | called => trivial
  | notified r property before after =>
    exact ⟨h.ref r he.1, fun v hv => h.value (he.2.1 v hv), fun v hv => h.value (he.2.2 v hv)⟩
  | subscribed r l => exact ⟨h.ref r he.1, fun q hq => h.ref q (he.2 q hq)⟩
  | unsubscribed r l => exact ⟨h.ref r he.1, fun q hq => h.ref q (he.2 q hq)⟩

theorem Le.frame (h : S.Le T) {f : SetterLoom.Frame} (hf : S.Frame f) : T.Frame f :=
  ⟨fun v hv => h.value (hf.arguments v hv), fun v hv => h.value (hf.slots v hv),
    fun v hv => h.value (hf.stack v hv)⟩

theorem Frame.push {f : SetterLoom.Frame} {v : SetterLoom.Value} (hf : S.Frame f) (hv : S.Value v) :
    S.Frame (f.push v) :=
  ⟨hf.arguments, hf.slots, List.forall_mem_cons.mpr ⟨hv, hf.stack⟩⟩

/-- The scope that everything is in. -/
def all : Scope := ⟨fun _ => True, fun _ => True⟩

theorem all_value (v : SetterLoom.Value) : all.Value v := by
  cases v <;> trivial

theorem all_object (o : HeapObject) : all.Object o := by
  cases o with
  | string => trivial
  | object type fields => exact fun _ v _ => all_value v
  | boxed type v => exact all_value v
  | delegate type list => exact fun _ _ => ⟨fun _ _ => trivial, trivial⟩

end Scope

/-- The method that an instruction makes a pointer for. -/
def Op.loaded? : Op → Option MethodId
  | ⟨.ldftn, .method use⟩ => some use.method
  | _ => none

/-- What states are held to. The machine answers for the members of the runtime, and there are no other
hooks. -/
structure Upkeep (m : Module) where
  scope : Machine → Scope
  /-- What may become of a state. -/
  le : Machine → Machine → Prop
  inv : Machine → Prop
  /-- What a failure that starts in a state may come to. -/
  failed : Machine → Error → Machine → Prop
  /-- The methods that pointers are made for, and those that pointers stand for. -/
  Loads : MethodId → Prop
  Handles : MethodId → Prop
  hooks : ∀ {s}, inv s → s.hooks = Machine.withRuntimeMembers.hooks
  refl : ∀ s, le s s
  trans : ∀ {s t u}, le s t → le t u → le s u
  executed : ∀ {s t}, le s t → s.executed ≤ t.executed
  grow : ∀ {s t}, le s t → (scope s).Le (scope t)
  failed_of_le : ∀ {s t e u}, le s t → failed t e u → failed s e u
  lookup : ∀ {s r o}, inv s → (scope s).ref r → s.heap.get? r = some o → (scope s).Object o
  push : ∀ {s o}, inv s → (scope s).Object o → le s { s with heap := s.heap.push o }
    ∧ inv { s with heap := s.heap.push o } ∧ (scope { s with heap := s.heap.push o }).ref s.heap.next
  put : ∀ {s r f v type fields}, inv s → (scope s).ref r → (scope s).Value v →
    s.heap.get? r = some (.object type fields) →
      le s { s with heap := s.heap.put r f v } ∧ inv { s with heap := s.heap.put r f v }
  record : ∀ {s e}, inv s → (scope s).Event e →
    le s { s with trace := s.trace.push e } ∧ inv { s with trace := s.trace.push e }
  know : ∀ {s i d}, inv s → m.method? i = some d →
    le s { s with functions := s.functions.insertNew d.token i }
      ∧ inv { s with functions := s.functions.insertNew d.token i }
  load : ∀ {s i d}, inv s → m.method? i = some d → Loads i →
    le s { s with functions := s.functions.insert d.token i }
      ∧ inv { s with functions := s.functions.insert d.token i }
      ∧ (scope { s with functions := s.functions.insert d.token i }).pointer d.token
  count : ∀ {s}, inv s → s.executed < s.limit →
    le s { s with executed := s.executed + 1 } ∧ inv { s with executed := s.executed + 1 }
  /-- Going down into a body, and up again when it has run. -/
  scope_depth : ∀ s n, scope { s with depth := n } = scope s
  inv_depth : ∀ {s n}, inv s → inv { s with depth := n }
  nest : ∀ {s t}, le { s with depth := s.depth + 1 } t → le s { t with depth := t.depth - 1 }
  failed_nest : ∀ {s e t}, failed { s with depth := s.depth + 1 } e t →
    failed s e { t with depth := t.depth - 1 }
  fails : ∀ {s e}, inv s → e.dangles = false → e.overflows = false → failed s e s
  dangling : ∀ {s r}, inv s → (scope s).ref r → s.heap.get? r = none →
    failed s (.emulation (.danglingRef r)) s
  unknown : ∀ {s t}, inv s → (scope s).pointer t → s.functions.get? t = none →
    failed s (.emulation (.unknownPointer t)) s
  exceeds : ∀ {s name}, inv s → s.limit ≤ s.executed →
    failed s (.emulation (s.exhausted name)) { s with executed := s.executed + 1 }
  loads : ∀ {i d body}, m.method? i = some d → d.body = some body →
    ∀ x ∈ body.code, ∀ j, x.op.loaded? = some j → Loads j
  handles : ∀ {s t i}, inv s → (scope s).pointer t → s.functions.get? t = some i → Handles i
  wraps : ∀ {s e t hook name}, failed s e t → failed s (.runtimeMember hook name e) t

namespace Upkeep

variable {m : Module} (U : Upkeep m) {s t : Machine} {α β : Type}

/-- What an action that starts in a state may come to. -/
def Outcome (s : Machine) (results : Machine → α → Prop) : Except Error α × Machine → Prop
  | (.ok x, t) => U.le s t ∧ U.inv t ∧ results t x
  | (.error e, t) => U.failed s e t

/-- The actions do the same in a state, and what they leave is held to the upkeep. -/
structure Agree (s : Machine) (results : Machine → α → Prop) (a a' : Action α) : Prop where
  same : a'.run.run s = a.run.run s
  outcome : U.Outcome s results (a.run.run s)

variable {U} {results : Machine → α → Prop}

theorem Agree.of_run {a a' : Action α} (outcome : Except Error α × Machine)
    (ha : a.run.run s = outcome) (ha' : a'.run.run s = outcome) (h : U.Outcome s results outcome) :
    U.Agree s results a a' :=
  ⟨ha'.trans ha.symm, ha.symm ▸ h⟩

theorem Agree.mono {results' : Machine → α → Prop} {a a' : Action α} (h : U.Agree s results a a')
    (hresults : ∀ t x, U.le s t → U.inv t → results t x → results' t x) : U.Agree s results' a a' := by
  refine ⟨h.same, ?_⟩
  have houtcome := h.outcome
  revert houtcome
  rcases a.run.run s with ⟨e | x, t⟩
  · exact id
  · exact fun ⟨hle, hinv, hx⟩ => ⟨hle, hinv, hresults t x hle hinv hx⟩

/-- Actions that come to what agreeing actions come to in a later state. -/
theorem Agree.of_later {a a' b b' : Action α} (h : U.Agree t results b b') (hle : U.le s t)
    (ha : a.run.run s = b.run.run t) (ha' : a'.run.run s = b'.run.run t) :
    U.Agree s results a a' := by
  refine .of_run _ ha (ha'.trans h.same) ?_
  have houtcome := h.outcome
  revert houtcome
  rcases b.run.run t with ⟨e | x, u⟩
  · exact U.failed_of_le hle
  · exact fun ⟨hle', hx⟩ => ⟨U.trans hle hle', hx⟩

theorem Agree.bind {results' : Machine → β → Prop} {a a' : Action α} {f f' : α → Action β}
    (ha : U.Agree s results a a')
    (hf : ∀ t x, U.le s t → U.inv t → results t x → U.Agree t results' (f x) (f' x)) :
    U.Agree s results' (a >>= f) (a' >>= f') := by
  have houtcome := ha.outcome
  cases hax : a.run.run s with
  | mk result t =>
    have hax' : a'.run.run s = (result, t) := ha.same.trans hax
    rw [hax] at houtcome
    cases result with
    | error e =>
      refine .of_run (.error e, t) ?_ ?_ houtcome
      · rw [Action.bind_run, hax]
      · rw [Action.bind_run, hax']
    | ok x =>
      obtain ⟨hle, hinv, hx⟩ := houtcome
      refine (hf t x hle hinv hx).of_later hle ?_ ?_
      · rw [Action.bind_run, hax]
      · rw [Action.bind_run, hax']

theorem Agree.map {results' : Machine → β → Prop} {a a' : Action α} {f : α → β}
    (ha : U.Agree s results a a')
    (hf : ∀ t x, U.le s t → U.inv t → results t x → results' t (f x)) :
    U.Agree s results' (f <$> a) (f <$> a') := by
  have h : U.Agree s results' (a >>= fun x => Pure.pure (f x)) (a' >>= fun x => Pure.pure (f x)) :=
    ha.bind fun t x hle hinv hx =>
      .of_run (.ok (f x), t) rfl rfl ⟨U.refl t, hinv, hf t x hle hinv hx⟩
  rwa [bind_pure_comp, bind_pure_comp] at h

theorem Agree.tryCatch {a a' : Action α} {hook name : String} (h : U.Agree s results a a') :
    U.Agree s results (tryCatch a fun cause => throw (.runtimeMember hook name cause))
      (tryCatch a' fun cause => throw (.runtimeMember hook name cause)) := by
  have houtcome := h.outcome
  cases ha : a.run.run s with
  | mk result t =>
    have ha' : a'.run.run s = (result, t) := h.same.trans ha
    rw [ha] at houtcome
    cases result with
    | error e =>
      refine .of_run (.error (.runtimeMember hook name e), t) ?_ ?_ (U.wraps houtcome)
      · rw [Likeness.tryCatch_run, ha]
      · rw [Likeness.tryCatch_run, ha']
    | ok x =>
      refine .of_run (.ok x, t) ?_ ?_ houtcome
      · rw [Likeness.tryCatch_run, ha]
      · rw [Likeness.tryCatch_run, ha']

/-! ## The primitive actions -/

section Primitive

variable (hs : U.inv s)
include hs

theorem agree_pure {x : α} (hx : results s x) : U.Agree s results (pure x) (pure x) :=
  .of_run (.ok x, s) rfl rfl ⟨U.refl s, hs, hx⟩

theorem agree_throw {e : Error} (he : e.dangles = false) (ho : e.overflows = false) :
    U.Agree s results (throw e) (throw e) :=
  .of_run (.error e, s) rfl rfl (U.fails hs he ho)

theorem agree_fault {f : Fault} (hf : (Error.emulation f).dangles = false)
    (ho : (Error.emulation f).overflows = false) :
    U.Agree s results (Action.fault f) (Action.fault f) :=
  agree_throw hs hf ho

theorem agree_get : U.Agree s (fun t x => t = s ∧ x = s) get get :=
  .of_run (.ok s, s) rfl rfl ⟨U.refl s, hs, rfl, rfl⟩

theorem agree_heap {read : Heap → Except Error α}
    (hread : match read s.heap with
      | .ok x => results s x
      | .error e => U.failed s e s) :
    U.Agree s results (Action.heap read) (Action.heap read) := by
  refine ⟨rfl, ?_⟩
  rw [Action.heap_run]
  cases hx : read s.heap with
  | error e =>
    rw [hx] at hread
    exact hread
  | ok x =>
    rw [hx] at hread
    exact ⟨U.refl s, hs, hread⟩

variable {r : HeapRef} (hr : (U.scope s).ref r)
include hr

theorem agree_heap_get : U.Agree s (fun t o => (U.scope t).Object o) (Action.heap (·.get r))
    (Action.heap (·.get r)) := by
  refine agree_heap hs ?_
  unfold Heap.get
  cases ho : s.heap.get? r with
  | none => exact U.dangling hs hr ho
  | some o => exact U.lookup hs hr ho

theorem agree_heap_getString : U.Agree s (fun _ _ => True) (Action.heap (·.getString r))
    (Action.heap (·.getString r)) := by
  refine agree_heap hs ?_
  unfold Heap.getString Heap.get
  cases ho : s.heap.get? r with
  | none => exact U.dangling hs hr ho
  | some o =>
    cases o with
    | string => trivial
    | object | boxed | delegate => exact U.fails hs rfl rfl

theorem agree_heap_typeOf : U.Agree s (fun _ _ => True) (Action.heap (·.typeOf r))
    (Action.heap (·.typeOf r)) := by
  refine agree_heap hs ?_
  unfold Heap.typeOf Heap.get
  cases ho : s.heap.get? r with
  | none => exact U.dangling hs hr ho
  | some o => trivial

theorem agree_heap_getField (f : Token) :
    U.Agree s (fun t stored => ∀ v, stored = some v → (U.scope t).Value v)
      (Action.heap (·.getField r f)) (Action.heap (·.getField r f)) := by
  refine agree_heap hs ?_
  unfold Heap.getField Heap.get
  cases ho : s.heap.get? r with
  | none => exact U.dangling hs hr ho
  | some o =>
    cases o with
    | object type fields => exact U.lookup hs hr ho f
    | string | boxed | delegate => exact U.fails hs rfl rfl

theorem agree_setField (f : Token) {v : Value} (hv : (U.scope s).Value v) :
    U.Agree s (fun _ _ => True) (Action.setField r f v) (Action.setField r f v) := by
  refine ⟨rfl, ?_⟩
  show U.Outcome s _ (Action.setField r f v s)
  unfold Action.setField Heap.checkStore Heap.get
  cases ho : s.heap.get? r with
  | none => exact U.dangling hs hr ho
  | some o =>
    cases o with
    | object type fields =>
      obtain ⟨hle, hinv⟩ := U.put hs hr hv ho (f := f)
      exact ⟨hle, hinv, trivial⟩
    | string | boxed | delegate => exact U.fails hs rfl rfl

end Primitive

variable (hs : U.inv s)
include hs

theorem agree_alloc {o : HeapObject} (ho : (U.scope s).Object o) :
    U.Agree s (fun t r => (U.scope t).ref r) (Action.alloc o) (Action.alloc o) :=
  .of_run (.ok s.heap.next, { s with heap := s.heap.push o }) rfl rfl (U.push hs ho)

theorem agree_allocString (text : String) :
    U.Agree s (fun t v => (U.scope t).Value v) (Action.allocString text) (Action.allocString text) :=
  (agree_alloc hs (o := .string text) trivial).map fun _ _ _ _ hr => hr

theorem agree_allocObject (type : Token) :
    U.Agree s (fun t v => (U.scope t).Value v) (Action.allocObject type) (Action.allocObject type) := by
  have hempty : (U.scope s).Object (.object type .empty) := by
    intro f v hv
    rw [TokenMap.get?_empty] at hv
    cases hv
  exact (agree_alloc hs hempty).map fun _ _ _ _ hr => hr

theorem agree_record {e : TraceEvent} (he : (U.scope s).Event e) :
    U.Agree s (fun _ _ => True) (Action.record e) (Action.record e) :=
  have h := U.record hs he
  .of_run (.ok (), { s with trace := s.trace.push e }) rfl rfl ⟨h.1, h.2, trivial⟩

variable {i : MethodId} {d : Method} (hd : m.method? i = some d)
include hd

theorem agree_know : U.Agree s (fun _ _ => True) (Action.know d.token i) (Action.know d.token i) :=
  have h := U.know hs hd
  .of_run (.ok (), { s with functions := s.functions.insertNew d.token i }) rfl rfl
    ⟨h.1, h.2, trivial⟩

theorem agree_load (hi : U.Loads i) : U.Agree s (fun t _ => (U.scope t).pointer d.token)
    (Action.load d.token i) (Action.load d.token i) :=
  .of_run (.ok (), { s with functions := s.functions.insert d.token i }) rfl rfl (U.load hs hd hi)

omit hd in
theorem agree_known {t : Token} (ht : (U.scope s).pointer t) :
    U.Agree s (fun _ i => U.Handles i) (Action.known t) (Action.known t) := by
  refine (agree_get hs).bind fun u x _ _ hx => ?_
  obtain ⟨rfl, rfl⟩ := hx
  cases hi : x.functions.get? t with
  | some i => exact agree_pure hs (U.handles hs ht hi)
  | none => exact .of_run (.error _, x) rfl rfl (U.unknown hs ht hi)

end Upkeep

end SetterLoom
