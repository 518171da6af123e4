import Mathlib.Data.List.Forall2
import SetterLoom.Proofs.Module.Alike

/-!
# Runs that are alike

Two machines may run the same code on states that differ in ways the code cannot see: in the numbers of
the objects, in objects that the code never gets hold of, in how many instructions they have left. What
the two states have in common is given by a world, which grows when objects are made, and a likeness says
that no primitive change of the states leads out of it. Actions are alike if, whenever the first one
succeeds, so does the second one, with a like result.

A likeness of a machine with itself is an invariant. It may then be restricted to code that leaves some
fields alone, calls some methods never and points to others only.

* `Like.bind`: actions made of like actions are alike.
* `like_heap_get`, `like_alloc`, `like_setField`: the primitive actions.
-/

namespace SetterLoom
set_option autoImplicit false

/-- Worlds, which references belong together in them, and what code is free to do: store into a field,
point to a method, call a method. -/
structure Worlds where
  World : Type
  le : World → World → Prop
  refs : World → HeapRef → HeapRef → Prop
  storable : Token → Prop
  pointable : Token → Prop
  callable : MethodId → Prop

namespace Worlds

variable (W : Worlds)

/-- Values that are alike. -/
inductive Values (w : W.World) : Value → Value → Prop
  | void : Values w .void .void
  | int (n : Int32) : Values w (.int n) (.int n)
  | null : Values w .null .null
  | ref {r r' : HeapRef} (h : W.refs w r r') : Values w (.ref r) (.ref r')
  | struct (t : Token) : Values w (.struct t) (.struct t)
  | address {r r' : HeapRef} {f : Token} (h : W.refs w r r') (hf : W.storable f) :
    Values w (.address r f) (.address r' f)
  | function {t : Token} (h : W.pointable t) : Values w (.function t) (.function t)

/-- Places of an invocation list that are alike. -/
structure Invocations (w : W.World) (i i' : Invocation) : Prop where
  target : Option.Rel (W.refs w) i.target i'.target
  method : i'.method = i.method
  pointable : W.pointable i.method

/-- Objects that are alike. -/
inductive Objects (w : W.World) : HeapObject → HeapObject → Prop
  | string (s : String) : Objects w (.string s) (.string s)
  | object (t : Token) {fields fields' : TokenMap Value}
    (h : ∀ f, Option.Rel (W.Values w) (fields.get? f) (fields'.get? f)) :
    Objects w (.object t fields) (.object t fields')
  | boxed (t : Token) {v v' : Value} (h : W.Values w v v') :
    Objects w (.boxed t v) (.boxed t v')
  | delegate (t : Token) {list list' : List Invocation}
    (h : List.Forall₂ (W.Invocations w) list list') :
    Objects w (.delegate t list) (.delegate t list')

/-- Events of the trace that are alike. -/
inductive Events (w : W.World) : TraceEvent → TraceEvent → Prop
  | called (name : String) : Events w (.called name) (.called name)
  | notified {r r' : HeapRef} (property : String) {before before' after after' : Option Value}
    (h : W.refs w r r') (hbefore : Option.Rel (W.Values w) before before')
    (hafter : Option.Rel (W.Values w) after after') :
    Events w (.notified r property before after) (.notified r' property before' after')
  | subscribed {r r' : HeapRef} {l l' : Option HeapRef} (h : W.refs w r r')
    (hl : Option.Rel (W.refs w) l l') : Events w (.subscribed r l) (.subscribed r' l')
  | unsubscribed {r r' : HeapRef} {l l' : Option HeapRef} (h : W.refs w r r')
    (hl : Option.Rel (W.refs w) l l') : Events w (.unsubscribed r l) (.unsubscribed r' l')

section Grow

variable {W : Worlds} {w w' : W.World} (hrefs : ∀ {r r'}, W.refs w r r' → W.refs w' r r')

theorem rel_mono {α β : Type} {r q : α → β → Prop} (h : ∀ a b, r a b → q a b) {a : Option α}
    {b : Option β} (hab : Option.Rel r a b) : Option.Rel q a b := by
  cases hab with
  | none => exact .none
  | some hr => exact .some (h _ _ hr)

include hrefs

theorem Values.grow {v v' : Value} (h : W.Values w v v') : W.Values w' v v' := by
  cases h with
  | void => exact .void
  | int n => exact .int n
  | null => exact .null
  | ref h => exact .ref (hrefs h)
  | struct t => exact .struct t
  | address h hf => exact .address (hrefs h) hf
  | function h => exact .function h

theorem Invocations.grow {i i' : Invocation} (h : W.Invocations w i i') :
    W.Invocations w' i i' :=
  ⟨rel_mono (fun _ _ => hrefs) h.target, h.method, h.pointable⟩

theorem Objects.grow {o o' : HeapObject} (h : W.Objects w o o') : W.Objects w' o o' := by
  cases h with
  | string s => exact .string s
  | object t h => exact .object t fun f => rel_mono (fun _ _ => Values.grow hrefs) (h f)
  | boxed t h => exact .boxed t (h.grow hrefs)
  | delegate t h => exact .delegate t (h.imp fun _ _ => Invocations.grow hrefs)

theorem Events.grow {e e' : TraceEvent} (h : W.Events w e e') : W.Events w' e e' := by
  cases h with
  | called name => exact .called name
  | notified property h hbefore hafter =>
    exact .notified property (hrefs h) (rel_mono (fun _ _ => Values.grow hrefs) hbefore)
      (rel_mono (fun _ _ => Values.grow hrefs) hafter)
  | subscribed h hl => exact .subscribed (hrefs h) (rel_mono (fun _ _ => hrefs) hl)
  | unsubscribed h hl => exact .unsubscribed (hrefs h) (rel_mono (fun _ _ => hrefs) hl)

end Grow

end Worlds

/-- An object as it is made: nothing is stored in its fields yet. -/
def HeapObject.Made (o : HeapObject) : Prop := ∀ t fields, o = .object t fields → fields = .empty

/-- A relation between states in worlds that the primitive changes of the machine preserve. -/
structure Likeness (m m' : Module) extends Worlds where
  modules : m.Alike m'
  state : World → Machine → Machine → Prop
  le_refl : ∀ w, le w w
  le_trans : ∀ {w₁ w₂ w₃}, le w₁ w₂ → le w₂ w₃ → le w₁ w₃
  refs_mono : ∀ {w w' r r'}, le w w' → refs w r r' → refs w' r r'
  refs_eq_iff : ∀ {w s s' a a' b b'}, state w s s' → refs w a a' → refs w b b' → (a = b ↔ a' = b')
  lookup : ∀ {w s s' r r' o}, state w s s' → refs w r r' → s.heap.get? r = some o →
    ∃ o', s'.heap.get? r' = some o' ∧ toWorlds.Objects w o o'
  push : ∀ {w s s' o o'}, state w s s' → toWorlds.Objects w o o' → o.Made → o'.Made →
    ∃ w', le w w' ∧ refs w' s.heap.next s'.heap.next
      ∧ state w' { s with heap := s.heap.push o } { s' with heap := s'.heap.push o' }
  put : ∀ {w s s' r r' f v v'}, state w s s' → refs w r r' → storable f →
    toWorlds.Values w v v' → (∃ t fields, s.heap.get? r = some (.object t fields)) →
      state w { s with heap := s.heap.put r f v } { s' with heap := s'.heap.put r' f v' }
  record : ∀ {w s s' e e'}, state w s s' → toWorlds.Events w e e' →
    state w { s with trace := s.trace.push e } { s' with trace := s'.trace.push e' }
  know : ∀ {w s s' i d}, state w s s' → callable i → m.method? i = some d →
    state w { s with functions := s.functions.insertNew d.token i }
      { s' with functions := s'.functions.insertNew d.token i }
  load : ∀ {w s s' i d}, state w s s' → callable i → m.method? i = some d →
    state w { s with functions := s.functions.insert d.token i }
      { s' with functions := s'.functions.insert d.token i }
  known : ∀ {w s s' t i}, state w s s' → pointable t → s.functions.get? t = some i →
    s'.functions.get? t = some i ∧ callable i
  hooks : ∀ {w s s'}, state w s s' → s'.hooks = s.hooks
  depth : ∀ {w s s'}, state w s s' → s'.depth = s.depth
  room : ∀ {w s s'}, state w s s' → s.limit - s.executed ≤ s'.limit - s'.executed
  /-- Going down into a body, and up again when it has run. -/
  nest : ∀ {w s s'}, state w s s' → ∃ w₁, (∀ {r r'}, refs w r r' → refs w₁ r r')
    ∧ state w₁ { s with depth := s.depth + 1 } { s' with depth := s'.depth + 1 }
    ∧ ∀ {w₂ t t'}, le w₁ w₂ → state w₂ t t' → ∃ w₃, le w w₃ ∧ (∀ {r r'}, refs w₂ r r' → refs w₃ r r')
      ∧ state w₃ { t with depth := t.depth - 1 } { t' with depth := t'.depth - 1 }
  count : ∀ {w s s'}, state w s s' → s.executed < s.limit → s'.executed < s'.limit
    ∧ state w { s with executed := s.executed + 1 } { s' with executed := s'.executed + 1 }
  /-- What hooks answer of their own is alike. -/
  answers : ∀ {w s s' h v}, state w s s' → h ∈ s.hooks → h.action = .answer (some v) →
    toWorlds.Values w v v
  /-- Where a hook adds or removes handlers, code is free to store into the field behind the event. -/
  subscribes : ∀ {w s s' i d h}, state w s s' → callable i → m.method? i = some d →
    s.hooks.find? (⟨m, d⟩ : Site).callName = some h →
    h.action = .runtime .addHandler ∨ h.action = .runtime .removeHandler →
      ∀ t f, m.fieldInLine? t Surface.changedEvent = some f → storable f.token
  /-- Methods that may be called may be called on every object. -/
  dispatched : ∀ {i j d d'}, callable i → m.method? i = some d → m.method? j = some d' →
    d'.name = d.name → callable j
  constructors : ∀ {i d}, m.method? i = some d → d.name = Surface.constructor → callable i

namespace Likeness

variable {m m' : Module} (L : Likeness m m')

/-- Whenever the first action succeeds in a world, the second one succeeds too, in a later world, and
the results are alike. -/
def Like {α β : Type} (w : L.World) (results : L.World → α → β → Prop) (a : Action α)
    (a' : Action β) : Prop :=
  ∀ ⦃s s' x t⦄, L.state w s s' → a.run.run s = (.ok x, t) →
    ∃ w' x' t', L.le w w' ∧ L.state w' t t' ∧ a'.run.run s' = (.ok x', t') ∧ results w' x x'

variable {L} {α β γ δ : Type} {w : L.World} {results : L.World → α → β → Prop}

theorem Like.pure {x : α} {x' : β} (h : results w x x') :
    L.Like w results (pure x) (pure x') := by
  intro s s' y t hs ha
  obtain ⟨hy, ht⟩ := Prod.mk.inj ha
  cases hy
  cases ht
  exact ⟨w, x', s', L.le_refl w, hs, rfl, h⟩

theorem Like.throw {e : Error} {a' : Action β} : L.Like w results (throw e) a' := by
  intro s s' y t hs ha
  obtain ⟨hy, -⟩ := Prod.mk.inj ha
  cases hy

theorem Like.fault {f : Fault} {a' : Action β} : L.Like w results (Action.fault f) a' :=
  Like.throw

theorem Like.bind {results' : L.World → γ → δ → Prop} {a : Action α} {a' : Action β}
    {f : α → Action γ} {f' : β → Action δ} (ha : L.Like w results a a')
    (hf : ∀ w' x x', L.le w w' → results w' x x' → L.Like w' results' (f x) (f' x')) :
    L.Like w results' (a >>= f) (a' >>= f') := by
  intro s s' y t hs hrun
  rw [Action.bind_run] at hrun
  cases hax : a.run.run s with
  | mk result s₁ =>
    rw [hax] at hrun
    cases result with
    | error e => cases (Prod.mk.inj hrun).1
    | ok x =>
      obtain ⟨w₁, x', s₁', hle₁, hs₁, hax', hx⟩ := ha hs hax
      obtain ⟨w₂, y', t', hle₂, ht, hrun', hy⟩ := hf w₁ x x' hle₁ hx hs₁ hrun
      refine ⟨w₂, y', t', L.le_trans hle₁ hle₂, ht, ?_, hy⟩
      rw [Action.bind_run, hax']
      exact hrun'

theorem Like.map {results' : L.World → γ → δ → Prop} {a : Action α} {a' : Action β}
    {f : α → γ} {f' : β → δ} (ha : L.Like w results a a')
    (hf : ∀ w' x x', L.le w w' → results w' x x' → results' w' (f x) (f' x')) :
    L.Like w results' (f <$> a) (f' <$> a') := by
  have h : L.Like w results' (a >>= fun x => Pure.pure (f x)) (a' >>= fun x' => Pure.pure (f' x')) :=
    ha.bind fun w' x x' hle hx => Like.pure (hf w' x x' hle hx)
  rwa [bind_pure_comp, bind_pure_comp] at h

/-! ## The primitive actions -/

theorem like_get : L.Like w (fun w s s' => L.state w s s') get get := by
  intro s s' x t hs ha
  obtain ⟨hx, ht⟩ := Prod.mk.inj ha
  cases hx
  cases ht
  exact ⟨w, s', s', L.le_refl w, hs, rfl, hs⟩

theorem like_heap {read : Heap → Except Error α} {read' : Heap → Except Error β}
    (h : ∀ ⦃s s' x⦄, L.state w s s' → read s.heap = .ok x →
      ∃ x', read' s'.heap = .ok x' ∧ results w x x') :
    L.Like w results (Action.heap read) (Action.heap read') := by
  intro s s' x t hs ha
  obtain ⟨hread, rfl⟩ := Prod.mk.inj ha
  obtain ⟨x', hread', hx⟩ := h hs hread
  exact ⟨w, x', s', L.le_refl w, hs, Prod.ext hread' rfl, hx⟩

theorem get_eq_ok {h : Heap} {r : HeapRef} {o : HeapObject} :
    h.get r = .ok o ↔ h.get? r = some o := by
  unfold Heap.get
  cases h.get? r <;> simp

theorem like_heap_get {r r' : HeapRef} (hr : L.refs w r r') :
    L.Like w (fun w => L.Objects w) (Action.heap (·.get r)) (Action.heap (·.get r')) :=
  like_heap fun s s' o hs hget => by
    obtain ⟨o', ho', hobjects⟩ := L.lookup hs hr (get_eq_ok.mp hget)
    exact ⟨o', get_eq_ok.mpr ho', hobjects⟩

/-- What is read of like objects is alike. -/
theorem like_heap_read {r r' : HeapRef} (hr : L.refs w r r') {read : HeapObject → Except Error α}
    {read' : HeapObject → Except Error β}
    (h : ∀ ⦃o o' x⦄, L.Objects w o o' → read o = .ok x → ∃ x', read' o' = .ok x' ∧ results w x x') :
    L.Like w results (Action.heap fun h => h.get r >>= read) (Action.heap fun h => h.get r' >>= read') :=
  like_heap fun s s' x hs hread => by
    cases ho : s.heap.get r with
    | error e => rw [ho] at hread; cases hread
    | ok o =>
      obtain ⟨o', ho', hobjects⟩ := L.lookup hs hr (get_eq_ok.mp ho)
      rw [ho] at hread
      rw [get_eq_ok.mpr ho']
      exact h hobjects hread

theorem like_heap_getString {r r' : HeapRef} (hr : L.refs w r r') :
    L.Like w (fun _ x x' => x' = x) (Action.heap (·.getString r))
      (Action.heap (·.getString r')) :=
  like_heap_read hr fun o o' text hobjects hread => by
    cases hobjects with
    | string t => exact ⟨text, hread, rfl⟩
    | object | boxed | delegate => cases hread

theorem like_heap_typeOf {r r' : HeapRef} (hr : L.refs w r r') :
    L.Like w (fun _ x x' => x' = x) (Action.heap (·.typeOf r)) (Action.heap (·.typeOf r')) :=
  like_heap_read hr fun o o' type hobjects hread => by
    cases hobjects <;> exact ⟨type, hread, rfl⟩

theorem like_heap_getField {r r' : HeapRef} {f : Token} (hr : L.refs w r r') :
    L.Like w (fun w => Option.Rel (L.Values w)) (Action.heap (·.getField r f))
      (Action.heap (·.getField r' f)) :=
  like_heap_read hr fun o o' stored hobjects hread => by
    cases hobjects with
    | object t hfields =>
      cases hread
      exact ⟨_, rfl, hfields f⟩
    | string | boxed | delegate => cases hread

theorem like_alloc {o o' : HeapObject} (h : L.Objects w o o') (ho : o.Made) (ho' : o'.Made) :
    L.Like w (fun w => L.refs w) (Action.alloc o) (Action.alloc o') := by
  intro s s' x t hs ha
  obtain ⟨hx, rfl⟩ := Prod.mk.inj ha
  cases hx
  obtain ⟨w', hle, hrefs, hstate⟩ := L.push hs h ho ho'
  exact ⟨w', _, _, hle, hstate, rfl, hrefs⟩

theorem like_allocString (text : String) :
    L.Like w (fun w => L.Values w) (Action.allocString text) (Action.allocString text) :=
  (like_alloc (.string text) nofun nofun).map fun _ _ _ _ h => .ref h

theorem like_allocObject (type : Token) :
    L.Like w (fun w => L.Values w) (Action.allocObject type) (Action.allocObject type) := by
  have hmade : (HeapObject.object type .empty).Made := fun t fields h => (HeapObject.object.inj h).2.symm
  refine (like_alloc (.object type fun f => ?_) hmade hmade).map fun _ _ _ _ h => .ref h
  rw [TokenMap.get?_empty]
  exact .none

theorem like_setField {r r' : HeapRef} {f : Token} {v v' : Value} (hr : L.refs w r r')
    (hf : L.storable f) (hv : L.Values w v v') :
    L.Like w (fun _ _ _ => True) (Action.setField r f v) (Action.setField r' f v') := by
  intro s s' x t hs ha
  have hrun : Action.setField r f v s = (.ok x, t) := ha
  unfold Action.setField at hrun
  cases hcheck : s.heap.checkStore r f with
  | error e =>
    rw [hcheck] at hrun
    cases (Prod.mk.inj hrun).1
  | ok u =>
    rw [hcheck] at hrun
    obtain ⟨-, rfl⟩ := Prod.mk.inj hrun
    obtain ⟨type, fields, ho⟩ := Heap.checkStore_eq_ok.mp hcheck
    obtain ⟨o', ho', hobjects⟩ := L.lookup hs hr ho
    have hcheck' : s'.heap.checkStore r' f = .ok () := by
      cases hobjects
      exact Heap.checkStore_eq_ok.mpr ⟨type, _, ho'⟩
    refine ⟨w, (), { s' with heap := s'.heap.put r' f v' }, L.le_refl w,
      L.put hs hr hf hv ⟨type, fields, ho⟩, ?_, trivial⟩
    show Action.setField r' f v' s' = _
    simp only [Action.setField, hcheck']

theorem like_record {e e' : TraceEvent} (h : L.Events w e e') :
    L.Like w (fun _ _ _ => True) (Action.record e) (Action.record e') := by
  intro s s' x t hs ha
  obtain ⟨-, rfl⟩ := Prod.mk.inj ha
  exact ⟨w, (), _, L.le_refl w, L.record hs h, rfl, trivial⟩

theorem like_know {i : MethodId} {d : Method} (hi : L.callable i) (hd : m.method? i = some d) :
    L.Like w (fun _ _ _ => True) (Action.know d.token i) (Action.know d.token i) := by
  intro s s' x t hs ha
  obtain ⟨-, rfl⟩ := Prod.mk.inj ha
  exact ⟨w, (), _, L.le_refl w, L.know hs hi hd, rfl, trivial⟩

theorem like_load {i : MethodId} {d : Method} (hi : L.callable i) (hd : m.method? i = some d) :
    L.Like w (fun _ _ _ => True) (Action.load d.token i) (Action.load d.token i) := by
  intro s s' x t hs ha
  obtain ⟨-, rfl⟩ := Prod.mk.inj ha
  exact ⟨w, (), _, L.le_refl w, L.load hs hi hd, rfl, trivial⟩

theorem like_known {t : Token} (ht : L.pointable t) :
    L.Like w (fun _ i i' => i' = i ∧ L.callable i) (Action.known t) (Action.known t) := by
  refine like_get.bind fun w₁ s s' _ hs => ?_
  cases hi : s.functions.get? t with
  | none => exact .fault
  | some i =>
    obtain ⟨hi', hcallable⟩ := L.known hs ht hi
    rw [hi']
    exact .pure ⟨rfl, hcallable⟩

end Likeness

end SetterLoom
