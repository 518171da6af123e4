import SetterLoom.Proofs.Machine.Answered
import SetterLoom.Proofs.Machine.Bounded

/-!
# How deep calls are nested

A body runs one level deeper than the call that it answers, and there are only so many levels. A call that
the machine answers stays on its level; only raising the event calls on, and then it calls the constructor
of the event arguments and the handlers. If none of these raises an event in its own right, there is at most
one answered call between two bodies, and calls are nested at most twice as deep as there are levels, and
two more.

A handler that is itself a method by which the machine raises the event breaks the bound: then answered
calls are nested in answered calls, all on one level, as long as the limit allows.

* `Action.NestsWithin`: calls nested deeper than given are not made.
* `Module.Discreet`, `Machine.Discreet`: no handler is a method that raises the event.
* `Action.nests_within_levels`: calls are nested within the levels.
* `Action.echo_nests_deeper`: a node that listens to itself with the method that raises its event.
-/

namespace SetterLoom
set_option autoImplicit false

open Upkeep

/-- Calls that are nested deeper than given, the call itself counted, are not made: nothing depends on what
they would do. -/
def Action.NestsWithin (m : Module) (n : Nat) (i : MethodId) (this : Option Value)
    (arguments : List Value) (s : Machine) : Prop :=
  ∀ beyond : Call,
    (nestedAt m beyond n i this arguments).run.run s = (invoke m i this arguments).run.run s

namespace Module

/-- The token of a method by which the machine raises the event. -/
def Announces (m : Module) (t : Token) : Prop :=
  ∃ i d, m.method? i = some d ∧ d.token = t ∧ IsRaiser m i

/-- No code makes a pointer to a method by which the machine raises the event. -/
def Discreet (m : Module) : Prop :=
  ∀ i d body, m.method? i = some d → d.body = some body →
    ∀ x ∈ body.code, ∀ j, x.op.loaded? = some j → ∀ e, m.method? j = some e → ¬ m.Announces e.token

/-- Pointers to such methods are out of the scope of code. -/
def silence (m : Module) : Scope where
  ref _ := True
  pointer t := ¬ m.Announces t

end Module

namespace Machine

/-- Nothing in the state is a pointer to a method by which the machine raises the event, and pointers stand
for methods with these tokens. -/
structure Discreet (m : Module) (s : Machine) : Prop where
  hooks : s.hooks = withRuntimeMembers.hooks
  functions : ∀ t i, s.functions.get? t = some i → ∃ d, m.method? i = some d ∧ d.token = t
  objects : m.silence.Heap s.heap

variable {m : Module} {s : Machine}

theorem Discreet.insert (h : s.Discreet m) {i : MethodId} {d : Method} (hd : m.method? i = some d) :
    ({ s with functions := s.functions.insert d.token i } : Machine).Discreet m := by
  refine ⟨h.hooks, fun t j hj => ?_, h.objects⟩
  rw [TokenMap.get?_insert] at hj
  split at hj
  · rename_i heq
    obtain rfl := Option.some.inj hj
    exact ⟨d, hd, heq.symm⟩
  · exact h.functions t j hj

end Machine

/-- States without pointers to methods by which the machine raises the event, on levels of their own. -/
def Module.levels (m : Module) (hm : m.Discreet) : Upkeep m where
  scope _ := m.silence
  le s t := t.depth = s.depth ∧ s.executed ≤ t.executed
  inv s := s.Discreet m
  failed s _ t := t.depth = s.depth ∧ t.Discreet m
  Loads i := ∀ d, m.method? i = some d → ¬ m.Announces d.token
  Handles i := ¬ IsRaiser m i
  hooks h := h.hooks
  refl _ := ⟨rfl, Nat.le_refl _⟩
  trans h h' := ⟨h'.1.trans h.1, Nat.le_trans h.2 h'.2⟩
  executed h := h.2
  grow _ := ⟨fun _ => id, fun _ => id⟩
  failed_of_le h h' := ⟨h'.1.trans h.1, h'.2⟩
  lookup h _ hr := h.objects _ _ hr
  push h ho := ⟨⟨rfl, Nat.le_refl _⟩, ⟨h.hooks, h.functions, h.objects.push ho⟩, trivial⟩
  put h _ hv hr := ⟨⟨rfl, Nat.le_refl _⟩, h.hooks, h.functions, h.objects.put hr hv⟩
  record h _ := ⟨⟨rfl, Nat.le_refl _⟩, h.hooks, h.functions, h.objects⟩
  know {s i d} h hd := by
    refine ⟨⟨rfl, Nat.le_refl _⟩, ?_⟩
    unfold TokenMap.insertNew
    split
    · exact h
    · exact h.insert hd
  load h hd hi := ⟨⟨rfl, Nat.le_refl _⟩, h.insert hd, hi _ hd⟩
  count h _ := ⟨⟨rfl, Nat.le_succ _⟩, h.hooks, h.functions, h.objects⟩
  scope_depth _ _ := rfl
  inv_depth h := ⟨h.hooks, h.functions, h.objects⟩
  nest h := ⟨by rw [h.1, Nat.add_sub_cancel], h.2⟩
  failed_nest h := ⟨by rw [h.1, Nat.add_sub_cancel], h.2.hooks, h.2.functions, h.2.objects⟩
  fails h _ _ := ⟨rfl, h⟩
  dangling h _ _ := ⟨rfl, h⟩
  unknown h _ _ := ⟨rfl, h⟩
  exceeds h _ := ⟨rfl, h.hooks, h.functions, h.objects⟩
  loads hd hbody x hx j hj e he := hm _ _ _ hd hbody x hx j hj e he
  handles h hquiet hi hraiser := by
    obtain ⟨d, hd, htoken⟩ := h.functions _ _ hi
    exact hquiet ⟨_, d, hd, htoken, hraiser⟩
  wraps h := h

namespace Upkeep

variable {m : Module} {s : Machine} {this : Option Value} {arguments : List Value}

theorem IsConstructor.not_raiser {i : MethodId} (hi : IsConstructor m i) : ¬ IsRaiser m i := by
  rintro ⟨d, hd, -, hhook⟩
  rw [hi.unanswered d hd] at hhook
  cases hhook

/-- A call does not depend on what calls would do that are nested deeper than twice the levels that are
left, and two more, or one more if the machine does not answer by raising the event. -/
theorem agree_levels (hm : m.Discreet) (beyond beyond' : Call) (n : Nat) (hs : (m.levels hm).inv s) (i : MethodId)
    (hthis : ∀ v, this = some v → m.silence.Value v) (harguments : ∀ v ∈ arguments, m.silence.Value v)
    (hn : 2 * (maxDepth - s.depth) + 2 ≤ n ∨ 2 * (maxDepth - s.depth) + 1 ≤ n ∧ ¬ IsRaiser m i) :
    (m.levels hm).Agree s (fun _ v => m.silence.Value v) (Action.nestedAt m beyond n i this arguments)
      (Action.nestedAt m beyond' n i this arguments) := by
  -- every second call that is nested takes a level, and only one that raises the event
  -- takes none; so the bound is two for each level
  induction n generalizing s i this arguments with
  | zero => omega
  | succ n ih =>
    refine (agree_invokeWith hs (fun hdepth u hle hu t hle' ht _ x j this arguments hle'' hx hthis
      harguments => ?_) (fun hraiser hdepth => ?_) hthis harguments).mono fun _ _ _ _ hv => hv.1
    · -- a body runs on the next level
      have hlevel : x.depth = s.depth + 1 :=
        hle''.1.trans (hle'.1.trans (congrArg (· + 1) hle.1))
      exact ih hx j hthis harguments (.inl (by omega))
    · -- the event arguments are made and handlers called on the same level
      have hroom : 2 * (maxDepth - s.depth) + 1 ≤ n := by
        rcases hn with hn | ⟨-, hquiet⟩
        · omega
        · exact absurd hraiser hquiet
      have hcalls : ∀ {t}, t.depth = s.depth →
          (m.levels hm).CallsTo (fun j => ¬ IsRaiser m j) t (Action.nestedAt m beyond n)
            (Action.nestedAt m beyond' n) := by
        intro t hlevel x j this arguments hj hle hx hthis harguments
        have hlevel' : x.depth = s.depth := hle.1.trans hlevel
        exact ih hx j hthis harguments (.inr ⟨by omega, hj⟩)
      intro t j v hle ht hj hv
      refine (agree_construct ht (fun x k this arguments hk => ?_) fun w hw => ?_).mono
        fun u x hle' _ hx => ⟨hx, hcalls (hle'.1.trans hle.1)⟩
      · subst hk
        exact hcalls hle.1 hj.not_raiser
      · obtain rfl := List.mem_singleton.mp hw
        exact hv

end Upkeep

/-- If no code makes a pointer to a method by which the machine raises the event and nothing in the state
is one, then at most twice as many calls are nested as there are levels left, and two more; and the state
behind the call is again such a state, on the level of the call. -/
theorem Action.nests_within_levels (m : Module) (hm : m.Discreet) {s : Machine} (hs : s.Discreet m)
    (i : MethodId) {this : Option Value} {arguments : List Value}
    (hthis : ∀ v, this = some v → m.silence.Value v)
    (harguments : ∀ v ∈ arguments, m.silence.Value v) :
    NestsWithin m (2 * (maxDepth - s.depth) + 2) i this arguments s
      ∧ ∀ result t, (invoke m i this arguments).run.run s = (result, t) →
        t.Discreet m ∧ t.depth = s.depth ∧ ∀ v, result = .ok v → m.silence.Value v := by
  refine ⟨fun beyond => ?_, fun result t hrun => ?_⟩
  · by_cases hdeep : s.room + 2 ≤ 2 * (maxDepth - s.depth) + 2
    · -- the limit is reached before the levels are used up
      exact (((Upkeep.agree_invoke (m := m) beyond (s := s) hs.hooks i this arguments).1 hdeep).same).symm
    · have hnesting : 2 * (maxDepth - s.depth) + 2 ≤ nesting s := by
        unfold Machine.room at hdeep
        unfold nesting
        omega
      have hagree := fun b b' => Upkeep.agree_levels hm b b' _ hs i hthis harguments
        (.inl (Nat.le_refl (2 * (maxDepth - s.depth) + 2)))
      obtain ⟨k, hk⟩ := Nat.exists_eq_add_of_le hnesting
      rw [invoke_run, ← nestedAt_fault, hk, nestedAt_add m _ (2 * (maxDepth - s.depth) + 2) k]
      exact (hagree _ _).same
  · have houtcome := (Upkeep.calls_invoke (U := m.levels hm) s ((m.levels hm).refl s) hs (i := i) hthis
      harguments).outcome
    rw [hrun] at houtcome
    cases result with
    | error e => exact ⟨houtcome.2, houtcome.1, fun v hv => by cases hv⟩
    | ok v =>
      obtain ⟨hle, hdiscreet, hv⟩ := houtcome
      exact ⟨hdiscreet, hle.1, fun w hw => Except.ok.inj hw ▸ hv⟩

/-! ## Objects that hear themselves -/

/-- The only handler of the event of an object is the method by which the machine raises the event of the
object. -/
structure Machine.HearsItself (m : Module) (i : MethodId) (d : Method) (r : HeapRef) (s : Machine) :
    Prop where
  handlers : ∃ type fields field q handler, s.heap.get? r = some (.object type fields)
    ∧ m.eventField? type = some field ∧ fields.get? field.token = some (.ref q)
    ∧ s.heap.get? q = some (.delegate handler [⟨some r, d.token⟩])
  known : s.functions.get? d.token = some i

/-- How event arguments are made. -/
structure Module.Prepares (m : Module) (i : MethodId) (d : Method) (type : TypeDef) (field : Field)
    (hooks : HookTable) : Prop where
  makes : m.MakesArguments i d type field
  unanswered : hooks.find? (⟨m, d⟩ : Site).callName = none
  found : ∃ t, m.require Surface.eventArgs = .ok t
    ∧ (m.type? t).bind (m.methodNamed? · Surface.constructor) = some i

namespace Action

variable {m : Module} {i c : MethodId} {d e : Method} {type : TypeDef} {field : Field} {s t : Machine}
  {r : HeapRef} {call : Call}

theorem get?_named {v : Value} {p : HeapRef} {o : HeapObject} (hp : s.heap.get? p = some o) :
    (named m c e type field v s).heap.get? p = some o := by
  have hsize := (Heap.get?_eq_some hp).2
  have hne : p ≠ s.heap.next := fun heq => by
    rw [heq] at hsize
    exact absurd hsize (Nat.not_succ_le_self _)
  show ((s.heap.push (.object type.token .empty)).put s.heap.next field.token v).get? p = some o
  rw [Heap.get?_put _ _ _ _ _ (show 0 < s.heap.next.id from Nat.succ_pos _), if_neg hne,
    Heap.get?_push_old _ _ hsize, hp]

theorem get?_made (v : Value) : (named m c e type field v s).heap.get? s.heap.next
    = some (.object type.token (TokenMap.empty.insert field.token v)) := by
  show ((s.heap.push (.object type.token .empty)).put s.heap.next field.token v).get? s.heap.next = _
  rw [Heap.get?_put _ _ _ _ _ (show 0 < s.heap.next.id from Nat.succ_pos _), if_pos rfl,
    Heap.get?_push_new]
  rfl

theorem hearsItself_named (h : s.HearsItself m i d r) (v : Value) (property : String) :
    (named m c e type field v { s with heap := s.heap.push (.string property) }).HearsItself m i d r := by
  obtain ⟨⟨t, fields, x, q, handler, hr, hx, hq, hlist⟩, hknown⟩ := h
  have hkept : ∀ {p o}, s.heap.get? p = some o →
      (named m c e type field v { s with heap := s.heap.push (.string property) }).heap.get? p = some o :=
    fun hp => get?_named (((s.heap.get?_push_old _ (Heap.get?_eq_some hp).2)).trans hp)
  refine ⟨⟨t, fields, x, q, handler, hkept hr, hx, hq, hkept hlist⟩, ?_⟩
  show (s.functions.insertNew e.token c).get? d.token = some i
  rw [TokenMap.get?_insertNew]
  split
  · rename_i heq
    rw [← heq, hknown, Option.getD_some]
  · exact hknown

theorem hearsItself_announced (h : s.HearsItself m i d r) (name : String) :
    (announced m i d r name none none s).HearsItself m i d r := by
  refine ⟨h.handlers, ?_⟩
  show (s.functions.insertNew d.token i).get? d.token = some i
  rw [TokenMap.get?_insertNew, if_pos rfl, h.known, Option.getD_some]

theorem eventArgsConstructor_run (hfound : ∃ t, m.require Surface.eventArgs = .ok t
      ∧ (m.type? t).bind (m.methodNamed? · Surface.constructor) = some i) {a : Action MethodId}
    (ha : a = raiseEvent.eventArgsConstructor m) : a.run.run s = (.ok i, s) := by
  obtain ⟨t, hrequire, hi⟩ := hfound
  subst ha
  show raiseEvent.eventArgsConstructor m s = _
  unfold raiseEvent.eventArgsConstructor
  simp only [hrequire, hi]

/-- Raising the event of an object that hears itself makes event arguments and calls the one handler. -/
theorem raiseEvent_heard (h : s.HearsItself m i d r) (hprepares : m.Prepares c e type field s.hooks)
    (call : Call) (property : String) :
    ∃ q handler, s.heap.get? q = some (.delegate handler [⟨some r, d.token⟩])
      ∧ (raiseEvent m call r property).run.run s
        = (construct m call c [.ref s.heap.next] >>= fun v =>
            invokeDelegate call q [.ref r, v]).run.run { s with heap := s.heap.push (.string property) } := by
  obtain ⟨⟨t, fields, x, q, handler, hr, hx, hq, hhandler⟩, -⟩ := h
  refine ⟨q, handler, hhandler, ?_⟩
  unfold raiseEvent
  rw [bind_run, eventField?_run hr, hx]
  dsimp only
  rw [bind_run, Site.heap_getField_run hr, hq]
  dsimp only
  rw [bind_run, eventArgsConstructor_run hprepares.found rfl]
  rfl

theorem raiseEvent_echo (h : s.HearsItself m i d r) (hprepares : m.Prepares c e type field s.hooks)
    (property : String) (bound : Nat) (hdepth : s.depth < maxDepth) (hroom : s.executed + 4 ≤ s.limit) :
    (raiseEvent m (invokeAt m (bound + 1)) r property).run.run s
      = (invokeAt m (bound + 1) i (some (.ref r))
          [.ref r, .ref (s.heap.push (.string property)).next] >>= fun _ => pure ()).run.run
        (named m c e type field (.ref s.heap.next)
          { s with heap := s.heap.push (.string property) }) := by
  let told : Machine := { s with heap := s.heap.push (.string property) }
  let u : Machine := named m c e type field (.ref s.heap.next) told
  obtain ⟨q, handler, hhandler, hraised⟩ := raiseEvent_heard h hprepares (invokeAt m (bound + 1)) property
  have hmade : (construct m (invokeAt m (bound + 1)) c [.ref s.heap.next]).run.run told
      = (.ok (.ref told.heap.next), u) :=
    (constructor_run (s := told) hprepares.makes hprepares.unanswered).mpr ⟨hdepth, hroom, rfl, rfl⟩
  have hread : (heap (·.get q)).run.run u = (.ok (.delegate handler [⟨some r, d.token⟩]), u) :=
    Site.heap_get_run (get?_named ((s.heap.get?_push_old _ (Heap.get?_eq_some hhandler).2).trans hhandler))
  have hknown : (known d.token).run.run u = (.ok i, u) := by
    have hget : (get : Action Machine).run.run u = (.ok u, u) := rfl
    unfold known
    rw [bind_run, hget]
    dsimp only
    rw [(hearsItself_named h _ _).known]
    rfl
  rw [hraised, bind_run, hmade]
  dsimp only
  unfold invokeDelegate
  rw [bind_run, hread]
  dsimp only
  unfold invokeEach
  rw [bind_run, hknown]
  rfl

theorem announcement_named (hmakes : m.MakesArguments c e type field) (property : String) (v : Value)
    {x : Machine} (hx : x.heap = (named m c e type field (.ref s.heap.next)
      { s with heap := s.heap.push (.string property) }).heap) :
    (announcement m [v, .ref (s.heap.push (.string property)).next]).run.run x
      = (.ok (property, none, none), x) := by
  obtain ⟨t, hrequire, hfield⟩ := hmakes.name
  have hstring : x.heap.get? s.heap.next = some (.string property) := by
    rw [hx]
    exact get?_named (s.heap.get?_push_new (.string property))
  have harguments : x.heap.get? (s.heap.push (.string property)).next
      = some (.object type.token (TokenMap.empty.insert field.token (.ref s.heap.next))) := by
    rw [hx]
    exact get?_made (.ref s.heap.next)
  show (propertyName m (.ref (s.heap.push (.string property)).next) >>= fun name =>
    pure (name, none, none)).run.run x = _
  rw [bind_run, propertyName_arguments hrequire hfield harguments (TokenMap.get?_insert_self _ _ _)
    hstring]
  rfl

/-- A call of the method that raises the event of an object that hears itself calls that method again, and
so on, each time for four instructions. -/
theorem raiser_echo (hraises : m.Raises i d s.hooks) (hprepares : m.Prepares c e type field s.hooks)
    (h : s.HearsItself m i d r) {arguments : List Value} {name : String} (k : Nat)
    (hannounced : ∀ x : Machine, x.heap = s.heap →
      (announcement m arguments).run.run x = (.ok (name, none, none), x))
    (hdepth : s.depth < maxDepth) (hroom : s.executed + 4 * k ≤ s.limit) :
    ∃ e' t, (invokeAt m (k + 1) i (some (.ref r)) arguments).run.run s = (.error e', t)
      ∧ t.executed = s.executed + 4 * k := by
  -- by induction on the number of rounds: each makes event arguments, which takes four
  -- instructions, and leaves the object hearing itself
  induction k generalizing s arguments with
  | zero =>
    have hears := hearsItself_announced h name
    obtain ⟨hook, hcalled⟩ := raiser_called (invokeAt m 0) r hraises hdepth hannounced
    obtain ⟨q, handler, -, hraised⟩ := raiseEvent_heard hears hprepares (invokeAt m 0) name
    rw [invokeAt, hcalled, hraised, bind_run, construct_called hprepares.makes]
    exact ⟨_, _, rfl, rfl⟩
  | succ k ih =>
    obtain ⟨hook, hcalled⟩ := raiser_called (invokeAt m (k + 1)) r hraises hdepth hannounced
    let told : Machine := announced m i d r name none none s
    have hears : told.HearsItself m i d r := hearsItself_announced h name
    let u : Machine := named m c e type field (.ref told.heap.next)
      { told with heap := told.heap.push (.string name) }
    have hraised := raiseEvent_echo (s := told) hears hprepares name k hdepth
      (show s.executed + 4 ≤ s.limit by omega)
    obtain ⟨e', t, hcall, hcount⟩ := ih (s := u) hraises hprepares (hearsItself_named hears _ _)
      (fun x hx => announcement_named hprepares.makes name _ hx) hdepth
      (show s.executed + 4 + 4 * k ≤ s.limit by omega)
    have hrun : (invokeAt m (k + 2) i (some (.ref r)) arguments).run.run s
        = (.error (.runtimeMember hook (⟨m, d⟩ : Site).name e'), t) := by
      rw [invokeAt, hcalled, hraised, bind_run, hcall]
    have hexecuted : u.executed = s.executed + 4 := rfl
    exact ⟨_, t, hrun, by omega⟩

/-- If an object hears itself, then calls are nested as deep as the limit allows. -/
theorem not_nestsWithin_of_hearsItself (hraises : m.Raises i d s.hooks)
    (hprepares : m.Prepares c e type field s.hooks) (h : s.HearsItself m i d r) {arguments : List Value}
    {name : String} {n : Nat} (hannounced : ∀ x : Machine, x.heap = s.heap →
      (announcement m arguments).run.run x = (.ok (name, none, none), x))
    (hdepth : s.depth < maxDepth) (hroom : s.executed + 4 * (n + 1) ≤ s.limit) :
    ¬ NestsWithin m n i (some (.ref r)) arguments s := by
  intro hnests
  -- what deeper calls would do is to go one level deeper, or two
  have hsame : (invokeAt m (n + 1) i (some (.ref r)) arguments).run.run s
      = (invokeAt m (n + 2) i (some (.ref r)) arguments).run.run s := by
    rw [← nestedAt_fault m (n + 1), ← nestedAt_fault m (n + 2), nestedAt_add m _ n 1, nestedAt_add m _ n 2]
    exact (hnests _).trans (hnests _).symm
  obtain ⟨e₁, t₁, hrun₁, hcount₁⟩ := raiser_echo hraises hprepares h n hannounced hdepth (by omega)
  obtain ⟨e₂, t₂, hrun₂, hcount₂⟩ := raiser_echo hraises hprepares h (n + 1) hannounced hdepth hroom
  rw [hsame, hrun₂] at hrun₁
  have hstate := (Prod.mk.inj hrun₁).2
  rw [hstate] at hcount₂
  omega

end Action

/-! ## A node that hears itself, and one that echoes -/

namespace Module

variable {m : Module}

theorem mem_of_method? {i : MethodId} {d : Method} (h : m.method? i = some d) :
    some d ∈ m.methods.toList := by
  have hi := Option.join_eq_some_iff.mp h
  exact Array.mem_toList_iff.mpr (Array.mem_of_getElem? hi)

/-- Code makes pointers to a single method, and all methods with its token have bodies. -/
theorem discreet_of_bodies (handler : MethodId)
    (hloads : ∀ x ∈ m.methods.toList, ∀ d ∈ x, ∀ body ∈ d.body, ∀ i ∈ body.code,
      ∀ j ∈ i.op.loaded?, j = handler)
    (hbodies : ∀ e ∈ m.method? handler, ∀ x ∈ m.methods.toList, ∀ d ∈ x, d.token = e.token →
      d.body.isSome) : m.Discreet := by
  rintro i d body hd hbody x hx j hj e he ⟨k, c, hc, htoken, c', hc', hnone, -⟩
  obtain rfl := hloads _ (mem_of_method? hd) d rfl body hbody x hx j hj
  obtain rfl : c = c' := Option.some.inj (hc.symm.trans hc')
  have hsome := hbodies e he _ (mem_of_method? hc) c rfl htoken
  rw [hnone] at hsome
  cases hsome

end Module

namespace Echo

theorem discreet_module : (module ⟨6⟩).Discreet :=
  Module.discreet_of_bodies ⟨6⟩ (by decide +kernel) (by decide +kernel)

theorem discreet_machine (handler : MethodId) (limit : Nat) :
    (machine limit).Discreet (module handler) := by
  have hnone : (module handler).silence.Heap (start limit).heap := by
    intro r o hr
    have hsize := Heap.get?_eq_some hr
    have hempty : (start limit).heap.size = 0 := rfl
    omega
  have hnode : (module handler).silence.Object (.object ⟨11⟩ .empty) := by
    intro f v hv
    rw [TokenMap.get?_empty] at hv
    cases hv
  refine ⟨rfl, fun t i hi => ?_, (hnone.push hnode).push (o := .string "Name") trivial⟩
  rw [show (machine limit).functions = .empty from rfl, TokenMap.get?_empty] at hi
  cases hi

end Echo

namespace Action

/-- A node that listens to itself with a method that only hears. -/
theorem nests_within_levels_hear :
    NestsWithin (Echo.module ⟨6⟩) (2 * maxDepth + 2) ⟨2⟩ (some Echo.node) Echo.change
      (Echo.listening ⟨6⟩ 600).2 := by
  have hnode : ∀ v, some Echo.node = some v → (Echo.module ⟨6⟩).silence.Value v :=
    fun v hv => Option.some.inj hv ▸ trivial
  have hnone : ∀ v ∈ ([] : List Value), (Echo.module ⟨6⟩).silence.Value v := fun v hv => by cases hv
  obtain ⟨-, hafter⟩ := nests_within_levels (Echo.module ⟨6⟩) Echo.discreet_module
    (Echo.discreet_machine ⟨6⟩ 600) ⟨3⟩ hnode hnone
  have hlisten : (invoke (Echo.module ⟨6⟩) ⟨3⟩ (some Echo.node) []).run.run (Echo.machine 600)
      = ((Echo.listening ⟨6⟩ 600).1, (Echo.listening ⟨6⟩ 600).2) := by
    rw [Prod.eta, Echo.listening]
  obtain ⟨hdiscreet, hdepth, -⟩ := hafter _ _ hlisten
  have hchange : ∀ v ∈ Echo.change, (Echo.module ⟨6⟩).silence.Value v := by
    intro v hv
    rcases List.mem_pair.mp hv with rfl | rfl <;> trivial
  have hnests := (nests_within_levels (Echo.module ⟨6⟩) Echo.discreet_module hdiscreet ⟨2⟩ hnode
    hchange).1
  have hlevel : (Echo.machine 600).depth = 0 := by rfl
  rwa [hdepth, hlevel, Nat.sub_zero] at hnests

/-- A node that listens to itself with the method that raises its event: told once, it tells itself again and
again, all on one level, deeper than twice the levels that there are, and two more. -/
theorem echo_nests_deeper :
    (Echo.listening ⟨2⟩ 600).1 = .ok .void ∧ (Echo.listening ⟨2⟩ 600).2.depth = 0
      ∧ ¬ NestsWithin (Echo.module ⟨2⟩) (2 * maxDepth + 2) ⟨2⟩ (some Echo.node) Echo.change
        (Echo.listening ⟨2⟩ 600).2 := by
  have hhooks : (Echo.listening ⟨2⟩ 600).2.hooks = Machine.withRuntimeMembers.hooks := by decide +kernel
  have hcounters : (Echo.listening ⟨2⟩ 600).2.depth = 0 ∧ (Echo.listening ⟨2⟩ 600).2.executed = 6
      ∧ (Echo.listening ⟨2⟩ 600).2.limit = 600 := by
    decide +kernel
  obtain ⟨hdepth, hexecuted, hlimit⟩ := hcounters
  refine ⟨by decide +kernel, hdepth, ?_⟩
  have hraises : (Echo.module ⟨2⟩).Raises ⟨2⟩ (Echo.method 32 Surface.raiser 2 ⟨1⟩)
      (Echo.listening ⟨2⟩ 600).2.hooks := by
    rw [hhooks]
    exact ⟨by decide +kernel, rfl, RuntimeMember.raise.hook, by decide +kernel, rfl⟩
  have hprepares : (Echo.module ⟨2⟩).Prepares ⟨5⟩
      (Echo.method 35 Surface.constructor 1 ⟨4⟩ [.ldarg 0, .ldarg 1, .stfld Echo.name, .ret])
      ⟨⟨14⟩, "System.ComponentModel", "PropertyChangedEventArgs", .classType, true, none, [], [Echo.name],
        [⟨5⟩], [], [], []⟩ Echo.name (Echo.listening ⟨2⟩ 600).2.hooks := by
    rw [hhooks]
    exact ⟨⟨by decide +kernel, rfl, rfl, rfl, ⟨⟨4⟩, rfl, by decide +kernel, by decide +kernel⟩,
      ⟨_, rfl, rfl⟩, ⟨⟨4⟩, by decide +kernel, by decide +kernel⟩⟩, by decide +kernel,
      ⟨⟨4⟩, by decide +kernel, by decide +kernel⟩⟩
  have hears : (Echo.listening ⟨2⟩ 600).2.HearsItself (Echo.module ⟨2⟩) ⟨2⟩
      (Echo.method 32 Surface.raiser 2 ⟨1⟩) ⟨1⟩ :=
    ⟨⟨⟨11⟩, TokenMap.empty.insert ⟨1⟩ (.ref ⟨4⟩), Echo.handlers, ⟨4⟩, ⟨13⟩, by decide +kernel,
      by decide +kernel, by decide +kernel, by decide +kernel⟩, by decide +kernel⟩
  have hname : (Echo.listening ⟨2⟩ 600).2.heap.get? ⟨2⟩ = some (.string "Name") := by decide +kernel
  have hannounced : ∀ x : Machine, x.heap = (Echo.listening ⟨2⟩ 600).2.heap →
      (announcement (Echo.module ⟨2⟩) Echo.change).run.run x = (.ok ("Name", none, none), x) := by
    intro x hx
    have hstring : x.heap.get? ⟨2⟩ = some (.string "Name") := by rw [hx, hname]
    show (propertyName (Echo.module ⟨2⟩) (.ref ⟨2⟩) >>= fun name => pure (name, none, none)).run.run x = _
    rw [bind_run, propertyName_string hstring]
    rfl
  have hdepth' : (Echo.listening ⟨2⟩ 600).2.depth < maxDepth := by rw [hdepth]; decide
  have hroom : (Echo.listening ⟨2⟩ 600).2.executed + 4 * (2 * maxDepth + 2 + 1)
      ≤ (Echo.listening ⟨2⟩ 600).2.limit := by
    rw [hexecuted, hlimit]
    decide
  exact not_nestsWithin_of_hearsItself hraises hprepares hears hannounced hdepth' hroom

end Action

end SetterLoom
