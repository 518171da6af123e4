import SetterLoom.Proofs.Machine.Calling

/-!
# What every run leaves as it is

A call that succeeds uses up instructions and leaves the limit, the hooks and the depth as they were. It
adds to the trace and to the heap, and an object keeps its type and, unless it has fields, its value.

* `later_invokeAt`, `invokeAt_mono`: calls of methods.
* `later_does`: one instruction.
* `runFrom_of_ends`: a run that ends is one that the limit allows.
-/

namespace SetterLoom
set_option autoImplicit false

/-- An object after some stores into its fields. -/
inductive HeapObject.Kept : HeapObject → HeapObject → Prop
  | same (o : HeapObject) : Kept o o
  | stored (t : Token) (fields fields' : TokenMap Value) : Kept (.object t fields) (.object t fields')

namespace Machine

/-- A state that a run can lead to. -/
structure Later (s t : Machine) : Prop where
  limit : t.limit = s.limit
  executed : s.executed ≤ t.executed
  hooks : t.hooks = s.hooks
  trace : ∃ events, t.trace.toList = s.trace.toList ++ events
  objects : ∀ r o, s.heap.get? r = some o → ∃ o', t.heap.get? r = some o' ∧ o.Kept o'

namespace Later

variable {s t u : Machine}

theorem refl (s : Machine) : s.Later s :=
  ⟨rfl, Nat.le_refl _, rfl, ⟨[], (List.append_nil _).symm⟩, fun _ o h => ⟨o, h, .same o⟩⟩

theorem trans (h : s.Later t) (h' : t.Later u) : s.Later u := by
  obtain ⟨events, hevents⟩ := h.trace
  obtain ⟨events', hevents'⟩ := h'.trace
  refine ⟨h'.limit.trans h.limit, Nat.le_trans h.executed h'.executed, h'.hooks.trans h.hooks,
    ⟨events ++ events', ?_⟩, fun r o hr => ?_⟩
  · rw [hevents', hevents, List.append_assoc]
  · obtain ⟨o', ho', hkept⟩ := h.objects r o hr
    obtain ⟨o'', ho'', hkept'⟩ := h'.objects r o' ho'
    refine ⟨o'', ho'', ?_⟩
    cases hkept with
    | same => exact hkept'
    | stored type fields fields' =>
      cases hkept' with
      | same => exact .stored type fields fields'
      | stored _ _ fields'' => exact .stored type fields fields''

theorem object {r : HeapRef} {type : Token} {fields : TokenMap Value} (h : s.Later t)
    (hr : s.heap.get? r = some (.object type fields)) :
    ∃ fields', t.heap.get? r = some (.object type fields') := by
  obtain ⟨o, ho, hkept⟩ := h.objects r _ hr
  cases hkept with
  | same => exact ⟨fields, ho⟩
  | stored _ _ fields' => exact ⟨fields', ho⟩

theorem push (h : s.Later t) (o : HeapObject) : s.Later { t with heap := t.heap.push o } := by
  refine h.trans ⟨rfl, Nat.le_refl _, rfl, ⟨[], (List.append_nil _).symm⟩, fun r o' hr => ?_⟩
  refine ⟨o', ?_, .same o'⟩
  show (t.heap.push o).get? r = some o'
  rw [Heap.get?_push_old t.heap o (Heap.get?_eq_some hr).2, hr]

theorem put (h : s.Later t) {r : HeapRef} {type : Token} {fields : TokenMap Value}
    (hr : t.heap.get? r = some (.object type fields)) (f : Token) (v : Value) :
    s.Later { t with heap := t.heap.put r f v } := by
  refine h.trans ⟨rfl, Nat.le_refl _, rfl, ⟨[], (List.append_nil _).symm⟩, fun q o hq => ?_⟩
  show ∃ o', (t.heap.put r f v).get? q = some o' ∧ o.Kept o'
  rw [Heap.get?_put t.heap r q f v (Heap.get?_eq_some hr).1]
  split
  · rename_i heq
    subst heq
    rw [hr] at hq ⊢
    obtain rfl := Option.some.inj hq
    exact ⟨_, rfl, .stored type fields _⟩
  · exact ⟨o, hq, .same o⟩

theorem record (h : s.Later t) (e : TraceEvent) :
    s.Later { t with trace := t.trace.push e } := by
  refine h.trans ⟨rfl, Nat.le_refl _, rfl, ⟨[e], ?_⟩, fun r o hr => ⟨o, hr, .same o⟩⟩
  exact Array.toList_push ..

/-- What was made of a later state without regard to heap and trace is later still. -/
theorem update (h : s.Later t) {functions : TokenMap MethodId} {executed depth : Nat}
    (hle : t.executed ≤ executed) : s.Later { t with functions, executed, depth } :=
  h.trans ⟨rfl, hle, rfl, ⟨[], (List.append_nil _).symm⟩, fun _ o hr => ⟨o, hr, .same o⟩⟩

end Later

end Machine

namespace Worlds

/-! ## Everything is like itself where references are and nothing is forbidden -/

theorem rel_refl {α : Type} {r : α → α → Prop} (h : ∀ a, r a a) (x : Option α) :
    Option.Rel r x x := by
  cases x with
  | none => exact .none
  | some a => exact .some (h a)

variable {W : Worlds} {w : W.World}

section Reflexive

variable (hrefs : ∀ r, W.refs w r r)
include hrefs

theorem values_refl (hstorable : ∀ t, W.storable t) (hpointable : ∀ t, W.pointable t) (v : Value) :
    W.Values w v v := by
  cases v with
  | void => exact .void
  | int n => exact .int n
  | null => exact .null
  | ref r => exact .ref (hrefs r)
  | struct t => exact .struct t
  | address r f => exact .address (hrefs r) (hstorable f)
  | function t => exact .function (hpointable t)

theorem objects_refl (hstorable : ∀ t, W.storable t) (hpointable : ∀ t, W.pointable t)
    (o : HeapObject) : W.Objects w o o := by
  cases o with
  | string s => exact .string s
  | object t fields =>
    exact .object t fun f => rel_refl (values_refl hrefs hstorable hpointable) _
  | boxed t v => exact .boxed t (values_refl hrefs hstorable hpointable v)
  | delegate t list =>
    exact .delegate t (List.forall₂_same.mpr fun i _ =>
      ⟨rel_refl hrefs i.target, rfl, hpointable i.method⟩)

end Reflexive

/-! ## Only what is the same is alike where references are -/

section Same

variable (hrefs : ∀ {r r'}, W.refs w r r' → r' = r)
include hrefs

theorem eq_of_values {v v' : Value} (h : W.Values w v v') : v' = v := by
  cases h with
  | void | int | null | struct | function => rfl
  | ref h => rw [hrefs h]
  | address h => rw [hrefs h]

omit hrefs in
theorem eq_of_rel {α : Type} {r : α → α → Prop} (h : ∀ a b, r a b → b = a) {x x' : Option α}
    (hx : Option.Rel r x x') : x' = x := by
  cases hx with
  | none => rfl
  | some hr => rw [h _ _ hr]

theorem eq_of_events {e e' : TraceEvent} (h : W.Events w e e') : e' = e := by
  have hvalue : ∀ v v', W.Values w v v' → v' = v := fun _ _ => eq_of_values hrefs
  cases h with
  | called name => rfl
  | notified property h hbefore hafter =>
    rw [hrefs h, eq_of_rel hvalue hbefore, eq_of_rel hvalue hafter]
  | subscribed h hl => rw [hrefs h, eq_of_rel (fun _ _ => hrefs) hl]
  | unsubscribed h hl => rw [hrefs h, eq_of_rel (fun _ _ => hrefs) hl]

theorem eq_of_objects {o o' : HeapObject} (h : W.Objects w o o') (ho : o.Made) (ho' : o'.Made) :
    o' = o := by
  cases h with
  | string s => rfl
  | object t h => rw [ho t _ rfl, ho' t _ rfl]
  | boxed t h => rw [eq_of_values hrefs h]
  | delegate t h =>
    have hsame : ∀ {i i' : Invocation}, W.Invocations w i i' → i' = i := by
      intro i i' hi
      obtain ⟨target, method⟩ := i
      obtain ⟨target', method'⟩ := i'
      have htarget : target' = target := eq_of_rel (fun _ _ => hrefs) hi.target
      have hmethod : method' = method := hi.method
      rw [htarget, hmethod]
    congr 1
    induction h with
    | nil => rfl
    | cons hi _ ih => rw [hsame hi, ih nofun nofun]

end Same

end Worlds

namespace Likeness

/-- A machine is like itself in all states that a run from one state can lead to, at a given depth. -/
def later (m : Module) : Likeness m m where
  World := Machine × Nat
  le := (· = ·)
  refs := fun _ r r' => r = r'
  storable := fun _ => True
  pointable := fun _ => True
  callable := fun _ => True
  modules := .refl m
  state := fun w s s' => s' = s ∧ w.1.Later s ∧ s.depth = w.2
  le_refl := fun _ => rfl
  le_trans := Eq.trans
  refs_mono := fun _ h => h
  refs_eq_iff := fun _ ha hb => by rw [ha, hb]
  lookup := by
    rintro w s s' r r' o ⟨rfl, -, -⟩ rfl ho
    exact ⟨o, ho, Worlds.objects_refl (fun _ => rfl) (fun _ => trivial) (fun _ => trivial) o⟩
  push := by
    rintro w s s' o o' ⟨rfl, hlater, hdepth⟩ ho hmade hmade'
    obtain rfl : o' = o := Worlds.eq_of_objects Eq.symm ho hmade hmade'
    exact ⟨w, rfl, rfl, rfl, hlater.push o', hdepth⟩
  put := by
    rintro w s s' r r' f v v' ⟨rfl, hlater, hdepth⟩ rfl - hv ⟨t, fields, hr⟩
    obtain rfl : v' = v := Worlds.eq_of_values Eq.symm hv
    exact ⟨rfl, hlater.put hr f v', hdepth⟩
  record := by
    rintro w s s' e e' ⟨rfl, hlater, hdepth⟩ he
    obtain rfl : e' = e := Worlds.eq_of_events Eq.symm he
    exact ⟨rfl, hlater.record e', hdepth⟩
  know := by
    rintro w s s' i d ⟨rfl, hlater, hdepth⟩ - -
    exact ⟨rfl, hlater.update (Nat.le_refl _), hdepth⟩
  load := by
    rintro w s s' i d ⟨rfl, hlater, hdepth⟩ - -
    exact ⟨rfl, hlater.update (Nat.le_refl _), hdepth⟩
  known := by
    rintro w s s' t i ⟨rfl, -, -⟩ - hi
    exact ⟨hi, trivial⟩
  hooks := by
    rintro w s s' ⟨rfl, -, -⟩
    rfl
  depth := by
    rintro w s s' ⟨rfl, -, -⟩
    rfl
  room := by
    rintro w s s' ⟨rfl, -, -⟩
    exact Nat.le_refl _
  nest := by
    rintro ⟨s₀, n⟩ s s' ⟨rfl, hlater, hdepth⟩
    refine ⟨(s₀, n + 1), fun h => h, ⟨rfl, hlater.update (Nat.le_refl _), ?_⟩, ?_⟩
    · exact congrArg (· + 1) hdepth
    · rintro w₂ t t' rfl ⟨rfl, hlater', hdepth'⟩
      refine ⟨(s₀, n), rfl, fun h => h, rfl, hlater'.update (Nat.le_refl _), ?_⟩
      exact congrArg (· - 1) hdepth'
  count := by
    rintro w s s' ⟨rfl, hlater, hdepth⟩ hlimit
    exact ⟨hlimit, rfl, hlater.update (Nat.le_succ _), hdepth⟩
  answers := fun _ _ _ => Worlds.values_refl (fun _ => rfl) (fun _ => trivial) (fun _ => trivial) _
  subscribes := fun _ _ _ _ _ _ _ _ => trivial
  dispatched := fun _ _ _ _ => trivial
  constructors := fun _ _ => trivial

theorem allowed_later (m : Module) (op : Op) : (later m).Allowed op :=
  ⟨fun _ _ _ => trivial, fun _ _ => trivial, fun _ _ _ _ _ => trivial⟩

theorem bodies_later {m : Module} {call call' : Call} (hcalls : (later m).Calls call call') (i : MethodId) :
    (later m).Bodies call call' i := by
  intro d d' hd hd' w this this' args args' hthis hargs
  obtain rfl : d = d' := Option.some.inj (hd.symm.trans hd')
  cases hbody : d.body with
  | none =>
    unfold Site.runBody
    simp only [hbody]
    exact .throw
  | some body =>
    exact like_runBody hcalls rfl hbody hbody (fun j _ => allowed_later m j.op) hthis hargs

theorem calls_later (m : Module) {bound bound' : Nat} (hbound : bound ≤ bound') :
    (later m).Calls (Action.invokeAt m bound) (Action.invokeAt m bound') :=
  calls_invokeAt (fun _ _ i hcalls _ => bodies_later hcalls i) hbound

theorem values_later {m : Module} {w : (later m).World} (v : Value) : (later m).Values w v v :=
  Worlds.values_refl (fun _ => rfl) (fun _ => trivial) (fun _ => trivial) v

theorem list_later {m : Module} {w : (later m).World} (values : List Value) :
    List.Forall₂ ((later m).Values w) values values :=
  List.forall₂_same.mpr fun v _ => values_later v

end Likeness

variable {m : Module} {d : Method} {bound : Nat} {s t : Machine}

private theorem alike_invokeAt {i : MethodId} {this : Option Value} {args : List Value} {v : Value}
    {bound' : Nat} (hbound : bound ≤ bound')
    (h : (Action.invokeAt m bound i this args).run.run s = (.ok v, t)) :
    s.Later t ∧ t.depth = s.depth ∧ (Action.invokeAt m bound' i this args).run.run s = (.ok v, t) := by
  have hthis : Option.Rel ((Likeness.later m).Values (s, s.depth)) this this :=
    Worlds.rel_refl Likeness.values_later this
  obtain ⟨w', v', t', rfl, ⟨rfl, hlater, hdepth⟩, hrun, hv⟩ :=
    Likeness.calls_later m hbound trivial hthis (Likeness.list_later args) ⟨rfl, .refl s, rfl⟩ h
  obtain rfl : v' = v := Worlds.eq_of_values Eq.symm hv
  exact ⟨hlater, hdepth, hrun⟩

theorem later_invokeAt {i : MethodId} {this : Option Value} {args : List Value} {v : Value}
    (h : (Action.invokeAt m bound i this args).run.run s = (.ok v, t)) :
    s.Later t ∧ t.depth = s.depth :=
  have ⟨hlater, hdepth, _⟩ := alike_invokeAt (Nat.le_refl bound) h
  ⟨hlater, hdepth⟩

/-- A call that returns does the same if calls may be nested deeper. -/
theorem invokeAt_mono {i : MethodId} {this : Option Value} {args : List Value} {v : Value}
    {bound' : Nat} (hbound : bound ≤ bound')
    (h : (Action.invokeAt m bound i this args).run.run s = (.ok v, t)) :
    (Action.invokeAt m bound' i this args).run.run s = (.ok v, t) :=
  (alike_invokeAt hbound h).2.2

theorem later_does {op : Op} {f : Frame} {way : Step}
    (h : (⟨m, d⟩ : Site).Does (Action.invokeAt m bound) op f s way t) :
    s.Later t ∧ t.depth = s.depth ∧ s.executed < t.executed := by
  have hf : ∀ {w}, (Likeness.later m).Frames w [] f f :=
    ⟨Likeness.list_later _, ⟨f.slots, (List.append_nil _).symm, Likeness.list_later _⟩,
      Likeness.list_later _⟩
  have hop := Likeness.allowed_later m op
  have hcalls := Likeness.calls_later m (Nat.le_refl bound)
  let counted : Machine := { s with executed := s.executed + 1 }
  obtain ⟨w', way', t', rfl, ⟨rfl, hlater, hdepth⟩, -, -⟩ :=
    Likeness.like_step hcalls (rfl : d.signature = d.signature) hop hf
      (w := (counted, s.depth)) ⟨rfl, .refl _, rfl⟩ h.2
  have hcounted : s.Later counted := (Machine.Later.refl s).update (Nat.le_succ _)
  exact ⟨hcounted.trans hlater, hdepth, hlater.executed⟩

namespace Site

/-- A run that ends is one that the limit allows. -/
theorem runFrom_of_ends {code : Stream} {p steps : Nat} {f : Frame} {v : Value}
    (h : (⟨m, d⟩ : Site).Ends (Action.invokeAt m bound) code idle p f s v t)
    (hsteps : s.limit - s.executed < steps) :
    (⟨m, d⟩ : Site).runFrom (Action.invokeAt m bound) code steps p f s = (.ok v, t) := by
  -- each instruction counts, so what is left of the limit is less than what is left of the steps
  induction h generalizing steps with
  | done hi hdoes =>
    obtain ⟨steps, rfl⟩ : ∃ n, steps = n + 1 := ⟨steps - 1, by omega⟩
    rw [runFrom_succ hi hdoes]
    rfl
  | next hi hdoes hact hrest ih =>
    obtain ⟨steps, rfl⟩ : ∃ n, steps = n + 1 := ⟨steps - 1, by omega⟩
    obtain ⟨rfl, rfl⟩ := hact
    obtain ⟨hlater, -, hlt⟩ := later_does hdoes
    have hlimit := hlater.limit
    have hroom := hdoes.1
    rw [runFrom_succ hi hdoes]
    exact ih (by omega)
  | jump hi hdoes hq hrest ih =>
    obtain ⟨steps, rfl⟩ : ∃ n, steps = n + 1 := ⟨steps - 1, by omega⟩
    obtain ⟨hlater, -, hlt⟩ := later_does hdoes
    have hlimit := hlater.limit
    have hroom := hdoes.1
    rw [runFrom_succ hi hdoes]
    unfold continue?
    simp only [hq]
    exact ih (by omega)

/-- A run ends normally exactly if it is a sequence of instructions within the limit. -/
theorem run_ok_iff {code : Stream} {f : Frame} {v : Value} :
    (⟨m, d⟩ : Site).run (Action.invokeAt m bound) code f s = (.ok v, t)
      ↔ (⟨m, d⟩ : Site).Ends (Action.invokeAt m bound) code idle 0 f s v t :=
  ⟨ends_of_runFrom, fun h => runFrom_of_ends h (Nat.lt_succ_self _)⟩

end Site

end SetterLoom
