import SetterLoom.Proofs.Machine.Restrained
import SetterLoom.Proofs.Weave.Steps

/-!
# The handlers of an object

The handlers of an object are the list of the delegate in the field behind its changed event. Code that
does not store into such fields leaves them alone; the accessors of the event change the list of their
receiver and nothing else.

* `count_of_withoutLast`: how often a handler is in the list from which one was removed.
* `Heap.handlers_stored`: storing a list changes the handlers of one object.
* `Action.accessor_run`: what the accessors store.
-/

namespace SetterLoom
set_option autoImplicit false

/-! ## Removing one handler -/

theorem count_of_withoutLast {i j : Invocation} {list kept : List Invocation}
    (h : withoutLast [i] list = some kept) :
    list.count j = kept.count j + if i = j then 1 else 0 := by
  induction list generalizing kept with
  | nil => cases h
  | cons a rest ih =>
    rw [withoutLast] at h
    -- what is taken out is the last occurrence, so the rest of the list is tried first
    cases hrest : withoutLast [i] rest with
    | some k =>
      simp only [hrest] at h
      obtain rfl := Option.some.inj h
      rw [List.count_cons, List.count_cons, ih hrest]
      omega
    | none =>
      simp only [hrest, List.isEmpty_cons, Bool.not_false, Bool.true_and] at h
      split at h
      · rename_i hprefix
        obtain rfl := Option.some.inj h
        simp only [List.isPrefixOf, Bool.and_true, beq_iff_eq] at hprefix
        subst hprefix
        simp only [List.length_singleton, List.drop_one, List.tail_cons, List.count_cons, beq_iff_eq]
      · cases h

theorem count_of_withoutLast_none {i : Invocation} {list : List Invocation}
    (h : withoutLast [i] list = none) : list.count i = 0 := by
  refine List.count_eq_zero.mpr fun hmem => ?_
  rcases withoutLast_eq_none.mp h with hnil | hno
  · cases hnil
  · obtain ⟨front, back, rfl⟩ := List.append_of_mem hmem
    exact hno ⟨front, back, by simp⟩

/-! ## Lists in the heap -/

namespace Heap

variable {m : Module} {h : Heap} {c r q : HeapRef} {f g : Token} {v : Value} {o : HeapObject}
  {type : Token} {fields : TokenMap Value} {list : List Invocation}

/-- The type of an object with fields. -/
def typeAt (h : Heap) (c : HeapRef) : Option Token :=
  match h.get? c with
  | some (.object t _) => some t
  | _ => none

/-- The field behind the changed event of an object. -/
def eventToken? (m : Module) (h : Heap) (c : HeapRef) : Option Token :=
  ((h.typeAt c).bind m.eventField?).map (·.token)

/-- The value behind the changed event of an object. -/
def changedCell (m : Module) (h : Heap) (c : HeapRef) : Option Value :=
  (h.eventToken? m c).bind (h.cell c)

/-- The list of a delegate, empty for everything else. -/
def listOf (h : Heap) : Option Value → List Invocation
  | some (.ref q) =>
    match h.get? q with
    | some (.delegate _ list) => list
    | _ => []
  | _ => []

/-- The handlers of an object. -/
def handlers (m : Module) (h : Heap) (c : HeapRef) : List Invocation := h.listOf (h.changedCell m c)

/-- Behind changed events there are delegates. -/
def Sound (m : Module) (h : Heap) : Prop :=
  ∀ c v, h.changedCell m c = some v →
    v = .null ∨ ∃ q type list, v = .ref q ∧ h.get? q = some (.delegate type list)

theorem eventToken?_eq_some (hf : h.eventToken? m c = some f) :
    ∃ t e, m.fieldInLine? t Surface.changedEvent = some e ∧ e.token = f := by
  obtain ⟨e, he, rfl⟩ := Option.map_eq_some_iff.mp hf
  obtain ⟨type, -, he⟩ := Option.bind_eq_some_iff.mp he
  obtain ⟨t, -, he⟩ := Option.bind_eq_some_iff.mp he
  exact ⟨t, e, he, rfl⟩

theorem get?_push_of_some (hr : h.get? r = some o) (o' : HeapObject) : (h.push o').get? r = some o := by
  rw [get?_push_old h o' (get?_eq_some hr).2, hr]

theorem typeAt_of_object (hr : h.get? r = some (.object type fields)) : h.typeAt r = some type := by
  unfold typeAt
  rw [hr]

theorem typeAt_put (hr : h.get? r = some (.object type fields)) :
    (h.put r f v).typeAt c = h.typeAt c := by
  unfold typeAt
  rw [get?_put h r c f v (get?_eq_some hr).1]
  by_cases hc : c = r
  · rw [if_pos hc, hc, hr]
    rfl
  · rw [if_neg hc]

theorem eventToken?_put (hr : h.get? r = some (.object type fields)) :
    (h.put r f v).eventToken? m c = h.eventToken? m c := by
  unfold eventToken?
  rw [typeAt_put hr]

theorem changedCell_put (hr : h.get? r = some (.object type fields)) :
    (h.put r f v).changedCell m c
      = if c = r ∧ h.eventToken? m c = some f then some v else h.changedCell m c := by
  unfold changedCell
  rw [eventToken?_put hr]
  cases htoken : h.eventToken? m c with
  | none => simp
  | some g => simp only [Option.bind_some, cell_put hr, Option.some.injEq]

theorem changedCell_push (ho : o.Made) : (h.push o).changedCell m c = h.changedCell m c := by
  unfold changedCell
  have hcell : (h.push o).cell c = h.cell c := funext fun f => cell_push ho
  rw [hcell]
  cases hc : h.get? c with
  | some o' =>
    have htype : (h.push o).typeAt c = h.typeAt c := by
      unfold typeAt
      rw [hc, get?_push_of_some hc]
    unfold eventToken?
    rw [htype]
  | none =>
    have hnone : h.cell c = fun _ => none := by
      funext f
      unfold cell
      rw [hc]
    rw [hnone]
    cases (h.push o).eventToken? m c <;> cases h.eventToken? m c <;> rfl

theorem Sound.push (hsound : h.Sound m) (ho : o.Made) : (h.push o).Sound m := by
  intro c v hv
  rw [changedCell_push ho] at hv
  rcases hsound c v hv with rfl | ⟨q, type, list, rfl, hq⟩
  · exact .inl rfl
  · exact .inr ⟨q, type, list, rfl, get?_push_of_some hq o⟩

theorem handlers_push (hsound : h.Sound m) (ho : o.Made) :
    (h.push o).handlers m c = h.handlers m c := by
  unfold handlers
  rw [changedCell_push ho]
  cases hcell : h.changedCell m c with
  | none => rfl
  | some v =>
    rcases hsound c v hcell with rfl | ⟨q, type, list, rfl, hq⟩
    · rfl
    · simp only [listOf, hq, get?_push_of_some hq]

theorem get?_put_delegate (hq : h.get? q = some (.delegate type list)) {t : Token}
    (hr : h.get? r = some (.object t fields)) :
    (h.put r f v).get? q = some (.delegate type list) := by
  rw [get?_put h r q f v (get?_eq_some hr).1, if_neg, hq]
  rintro rfl
  rw [hq] at hr
  cases hr

private theorem not_event (hf : h.eventToken? m r ≠ some f) :
    ¬ (c = r ∧ h.eventToken? m c = some f) := by
  rintro ⟨rfl, hc⟩
  exact hf hc

theorem Sound.put (hsound : h.Sound m) (hr : h.get? r = some (.object type fields))
    (hf : h.eventToken? m r ≠ some f) : (h.put r f v).Sound m := by
  intro c v' hv
  rw [changedCell_put hr, if_neg (not_event hf)] at hv
  rcases hsound c v' hv with rfl | ⟨q, type, list, rfl, hq⟩
  · exact .inl rfl
  · exact .inr ⟨q, type, list, rfl, get?_put_delegate hq hr⟩

theorem handlers_put (hsound : h.Sound m) (hr : h.get? r = some (.object type fields))
    (hf : h.eventToken? m r ≠ some f) : (h.put r f v).handlers m c = h.handlers m c := by
  unfold handlers
  rw [changedCell_put hr, if_neg (not_event hf)]
  cases hcell : h.changedCell m c with
  | none => rfl
  | some v =>
    rcases hsound c v hcell with rfl | ⟨q, type, list, rfl, hq⟩
    · rfl
    · simp only [listOf, hq, get?_put_delegate hq hr]

theorem made_delegate : (HeapObject.delegate type list).Made := fun _ _ h => by cases h

/-! ## Storing a list -/

/-- A list of handlers is stored in a field: null if it is empty, else a new delegate. -/
def stored (h : Heap) (c : HeapRef) (f type : Token) (list : List Invocation) : Heap :=
  if list.isEmpty then h.put c f .null else (h.push (.delegate type list)).put c f (.ref h.next)

variable {t : Token} (hc : h.get? c = some (.object t fields))
include hc

theorem cell_stored (hne : ¬ (r = c ∧ g = f)) : (h.stored c f type list).cell r g = h.cell r g := by
  unfold stored
  split
  · rw [cell_put hc, if_neg hne]
  · rw [cell_put (get?_push_of_some hc _), if_neg hne, cell_push made_delegate]

theorem get?_stored_delegate {u : Token} {list' : List Invocation}
    (hq : h.get? q = some (.delegate u list')) :
    (h.stored c f type list).get? q = some (.delegate u list') := by
  unfold stored
  split
  · exact get?_put_delegate hq hc
  · exact get?_put_delegate (get?_push_of_some hq _) (get?_push_of_some hc _)

theorem get?_stored_new (hlist : list.isEmpty = false) :
    (h.stored c f type list).get? h.next = some (.delegate type list) := by
  unfold stored
  rw [hlist]
  exact get?_put_delegate (get?_push_new h _) (get?_push_of_some hc _)

theorem changedCell_stored (hf : h.eventToken? m c = some f) :
    (h.stored c f type list).changedCell m r
      = if r = c then some (if list.isEmpty then .null else .ref h.next) else h.changedCell m r := by
  have htoken : (h.push (.delegate type list)).eventToken? m c = some f := by
    unfold eventToken? at hf ⊢
    rw [typeAt_of_object (get?_push_of_some hc _)]
    rwa [typeAt_of_object hc] at hf
  unfold stored
  split
  · rename_i hempty
    rw [changedCell_put hc]
    by_cases hr : r = c
    · subst hr
      simp [hf]
    · rw [if_neg fun h => hr h.1, if_neg hr]
  · rename_i hempty
    rw [changedCell_put (get?_push_of_some hc _), changedCell_push made_delegate]
    by_cases hr : r = c
    · subst hr
      simp [htoken]
    · rw [if_neg fun h => hr h.1, if_neg hr]

theorem handlers_stored (hsound : h.Sound m) (hf : h.eventToken? m c = some f) :
    (h.stored c f type list).Sound m
      ∧ (h.stored c f type list).handlers m r = if r = c then list else h.handlers m r := by
  constructor
  · intro r v hv
    rw [changedCell_stored hc hf] at hv
    split at hv
    · cases hempty : list.isEmpty with
      | true =>
        rw [hempty] at hv
        exact .inl (Option.some.inj hv).symm
      | false =>
        rw [hempty] at hv
        exact .inr ⟨_, _, _, (Option.some.inj hv).symm, get?_stored_new hc hempty⟩
    · rcases hsound r v hv with rfl | ⟨q, u, list', rfl, hq⟩
      · exact .inl rfl
      · exact .inr ⟨q, u, list', rfl, get?_stored_delegate hc hq⟩
  · unfold handlers
    rw [changedCell_stored hc hf]
    split
    · cases hempty : list.isEmpty with
      | true => exact (List.isEmpty_iff.mp hempty).symm
      | false =>
        simp only [Bool.false_eq_true, if_false, listOf, get?_stored_new hc hempty]
    · cases hcell : h.changedCell m r with
      | none => rfl
      | some v =>
        rcases hsound r v hcell with rfl | ⟨q, u, list', rfl, hq⟩
        · rfl
        · simp only [listOf, hq, get?_stored_delegate hc hq]

end Heap

/-! ## Notices -/

/-- An object announces the property of a name. -/
abbrev Notice := HeapRef × String

/-- The notice that an event of the trace gives. -/
def TraceEvent.notice? : TraceEvent → Option Notice
  | .notified r name _ _ => some (r, name)
  | .called _ | .subscribed _ _ | .unsubscribed _ _ => none

/-- The notices that were given so far, in order. -/
def Machine.notices (s : Machine) : List Notice := s.trace.toList.filterMap TraceEvent.notice?

theorem Machine.notices_push {s t : Machine} {e : TraceEvent} (htrace : t.trace = s.trace.push e)
    (he : e.notice? = none) : t.notices = s.notices := by
  unfold notices
  rw [htrace, Array.toList_push, List.filterMap_append, List.filterMap_cons_none he, List.filterMap_nil,
    List.append_nil]

/-! ## The accessors -/

private theorem hooks_runtime : Machine.withRuntimeMembers.hooks = [RuntimeMember.objectEquals.hook,
    RuntimeMember.addHandler.hook, RuntimeMember.removeHandler.hook, RuntimeMember.raise.hook] := by
  decide +kernel

private theorem names_differ : Surface.equals ≠ Surface.adder Surface.changedEvent
    ∧ Surface.equals ≠ Surface.remover Surface.changedEvent
    ∧ Surface.adder Surface.changedEvent ≠ Surface.remover Surface.changedEvent := by
  decide +kernel

theorem hook_adder {c : CallName} (h : c.method = Surface.adder Surface.changedEvent) :
    Machine.withRuntimeMembers.hooks.find? c = some RuntimeMember.addHandler.hook := by
  obtain ⟨hadder, -, -⟩ := names_differ
  rw [hooks_runtime]
  simp [HookTable.find?, Hook.fits, RuntimeMember.hook, NamePattern.fits, NamePattern.fitsPart, h, hadder]

theorem hook_remover {c : CallName} (h : c.method = Surface.remover Surface.changedEvent) :
    Machine.withRuntimeMembers.hooks.find? c = some RuntimeMember.removeHandler.hook := by
  obtain ⟨-, hremover, hother⟩ := names_differ
  rw [hooks_runtime]
  simp [HookTable.find?, Hook.fits, RuntimeMember.hook, NamePattern.fits, NamePattern.fitsPart, h,
    hremover, hother]

namespace Action

variable {m : Module} {call : Call} {i : MethodId} {d : Method} {s t : Machine} {v x : Value}
  {c q : HeapRef} {f type u : Token} {fields : TokenMap Value} {list list' : List Invocation}

theorem member_of_invokeWith {h : Hook} {member : RuntimeMember} {this : Option Value}
    {arguments : List Value} (hd : m.method? i = some d) (hbody : d.body = none)
    (hhook : s.hooks.find? (⟨m, d⟩ : Site).callName = some h) (haction : h.action = .runtime member)
    (hrun : (invokeWith m call i this arguments).run.run s = (.ok x, t)) :
    ∃ y, (answerFor m call member d.name this arguments).run.run (s.entered ⟨m, d⟩ i) = (.ok y, t) := by
  have hdepth := ((invokeWith_run hd this arguments).mp hrun).1
  rw [invokeWith_member hd hbody hhook haction this arguments hdepth] at hrun
  split at hrun
  · rename_i y u hanswered
    obtain ⟨-, rfl⟩ := Prod.mk.inj hrun
    exact ⟨y, hanswered⟩
  · cases (Prod.mk.inj hrun).1

theorem invocations_delegate (hq : s.heap.get? q = some (.delegate type list)) :
    (invocations (.ref q)).run.run s = (.ok list, s) := by
  show (heap (·.get q) >>= _).run.run s = _
  rw [bind_run, Site.heap_get_run hq]
  rfl

theorem eventToken?_of_object (hc : s.heap.get? c = some (.object type fields)) :
    s.heap.eventToken? m c = (m.eventField? type).map (·.token) := by
  unfold Heap.eventToken?
  rw [Heap.typeAt_of_object hc]
  rfl

theorem invocations_handlers (hsound : s.heap.Sound m)
    (hc : s.heap.get? c = some (.object type fields)) (hf : s.heap.eventToken? m c = some f) :
    (invocations ((fields.get? f).getD .null)).run.run s = (.ok (s.heap.handlers m c), s) := by
  have hcell : s.heap.changedCell m c = fields.get? f := by
    unfold Heap.changedCell
    rw [hf]
    exact Heap.cell_of_object hc
  unfold Heap.handlers
  rw [hcell]
  cases hfield : fields.get? f with
  | none => rfl
  | some v =>
    rcases hsound c v (hcell.trans hfield) with rfl | ⟨q, type, list, rfl, hq⟩
    · rfl
    · simp only [Option.getD_some, Heap.listOf, hq]
      exact invocations_delegate hq

theorem storeHandlers_run {field : Field} (hc : s.heap.get? c = some (.object type fields))
    (hq : s.heap.get? q = some (.delegate u list')) :
    (storeHandlers c field q list).run.run s
      = (.ok (), { s with heap := s.heap.stored c field.token u list }) := by
  unfold storeHandlers Heap.stored
  split
  · exact Site.setField_run hc
  · rw [bind_run, Site.heap_typeOf_run hq]
    exact Site.setField_run (s := { s with heap := s.heap.push (.delegate u list) })
      (Heap.get?_push_of_some hc _)

theorem fieldOrNull_ok (h : (fieldOrNull c f).run.run s = (.ok v, t)) :
    (∃ type fields, s.heap.get? c = some (.object type fields) ∧ v = (fields.get? f).getD .null)
      ∧ s = t := by
  obtain ⟨a, z, hfield, hpure⟩ := Steps.bind_ok.mp h
  obtain ⟨hv, rfl⟩ := Prod.mk.inj hpure
  obtain ⟨hread, rfl⟩ := Prod.mk.inj hfield
  refine ⟨?_, rfl⟩
  rw [← Except.ok.inj hv]
  unfold Heap.getField Heap.get at hread
  cases hget : s.heap.get? c with
  | none => simp only [hget] at hread; cases hread
  | some o =>
    simp only [hget] at hread
    cases o with
    | object type fields =>
      obtain rfl := Except.ok.inj hread
      exact ⟨type, fields, rfl, rfl⟩
    | string | boxed | delegate => cases hread

theorem handlerArguments_ok {method : String} {a : Option (HeapRef × Field × HeapRef)}
    (h : (handlerArguments m method (some v) [.ref q]).run.run s = (.ok a, t)) :
    ∃ c field o, v = .ref c ∧ a = some (c, field, q) ∧ s = t ∧ s.heap.get? c = some o
      ∧ (o.type?.bind m.registry.get?).bind (m.fieldInLine? · Surface.changedEvent) = some field := by
  obtain ⟨c, z, hreceiver, h⟩ := Steps.bind_ok.mp h
  obtain ⟨rfl, rfl⟩ : v = .ref c ∧ s = z := by
    unfold receiver at hreceiver
    cases v <;> cases hreceiver
    exact ⟨rfl, rfl⟩
  obtain ⟨field, z, hfield, h⟩ := Steps.bind_ok.mp h
  cases hget : s.heap.get? c with
  | none =>
    obtain ⟨_, _, htype, -⟩ := Steps.bind_ok.mp hfield
    obtain ⟨_, _, hread, -⟩ := Steps.bind_ok.mp htype
    obtain ⟨hread, -⟩ := Prod.mk.inj hread
    unfold Heap.typeOf Heap.get at hread
    simp only [hget] at hread
    cases hread
  | some o =>
    obtain ⟨_, _, htype, hpure⟩ := Steps.bind_ok.mp hfield
    rw [runtimeType_run hget] at htype
    obtain ⟨heq, rfl⟩ := Prod.mk.inj htype
    obtain rfl := Except.ok.inj heq
    obtain ⟨hfound, rfl⟩ := Prod.mk.inj hpure
    obtain rfl := Except.ok.inj hfound
    split at h
    · rename_i field hfield
      obtain ⟨ha, rfl⟩ := Prod.mk.inj h
      exact ⟨c, field, o, rfl, (Except.ok.inj ha).symm, rfl, hget, hfield⟩
    · cases (Prod.mk.inj h).1

end Action

/-! ## Calling an accessor -/

/-- An accessor of the changed event. -/
inductive EventAccessor where
  | add
  | remove

namespace EventAccessor

def name : EventAccessor → String
  | .add => Surface.adder Surface.changedEvent
  | .remove => Surface.remover Surface.changedEvent

/-- The method of an event that is such an accessor. -/
def method (e : Event) : EventAccessor → Option MethodId
  | .add => e.add
  | .remove => e.remove

/-- The list of handlers behind a call with the given handlers, if it is stored. -/
def change (given : List Invocation) : EventAccessor → List Invocation → Option (List Invocation)
  | .add, present => some (present ++ given)
  | .remove, present => withoutLast given present

/-- The member of the runtime that answers for the accessor. -/
def member : EventAccessor → RuntimeMember
  | .add => .addHandler
  | .remove => .removeHandler

/-- What a call of the accessor puts on the trace. -/
def event : EventAccessor → HeapRef → Option HeapRef → TraceEvent
  | .add => .subscribed
  | .remove => .unsubscribed

end EventAccessor

namespace Action

variable {m : Module} {call : Call} {bound : Nat} {i : MethodId} {d : Method} {s t : Machine} {v x : Value}
  {c q r : HeapRef} {type u : Token} {field : Field} {fields : TokenMap Value} {list : List Invocation}
  {a : EventAccessor}

theorem handlerArguments_run (hc : s.heap.get? c = some (.object type fields))
    (hf : m.eventField? type = some field) (method : String) :
    (handlerArguments m method (some (.ref c)) [.ref q]).run.run s = (.ok (some (c, field, q)), s) := by
  show (eventField? m c >>= _).run.run s = _
  rw [bind_run, eventField?_run hc, hf]
  rfl

/-- The accessors answer with nothing, and store what becomes of the handlers. -/
theorem accessor_run (hc : s.heap.get? c = some (.object type fields)) (hf : m.eventField? type = some field)
    (hsound : s.heap.Sound m) (hq : s.heap.get? q = some (.delegate u list))
    (a : EventAccessor) (method : String) :
    (answerFor m call a.member method (some (.ref c)) [.ref q]).run.run s
      = (.ok none, { s with
          heap := (a.change list (s.heap.handlers m c)).elim s.heap (s.heap.stored c field.token u)
          trace := s.trace.push (a.event c (firstTarget list)) }) := by
  have htoken : s.heap.eventToken? m c = some field.token := by
    rw [eventToken?_of_object hc, hf]
    rfl
  have hnull : (fieldOrNull c field.token).run.run s = (.ok ((fields.get? field.token).getD .null), s) := by
    unfold fieldOrNull
    rw [bind_run, Site.heap_getField_run hc]
    rfl
  have hpresent := invocations_handlers hsound hc htoken
  cases a with
  | add =>
    show (addHandler m method (some (.ref c)) [.ref q]).run.run s = _
    unfold addHandler
    rw [bind_run, handlerArguments_run hc hf]
    dsimp only
    rw [bind_run, invocations_delegate hq]
    dsimp only
    rw [bind_run, hnull]
    dsimp only
    rw [bind_run, hpresent]
    dsimp only
    rw [bind_run, storeHandlers_run hc hq]
    rfl
  | remove =>
    show (removeHandler m method (some (.ref c)) [.ref q]).run.run s = _
    unfold removeHandler
    rw [bind_run, handlerArguments_run hc hf]
    dsimp only
    rw [bind_run, invocations_delegate hq]
    dsimp only
    rw [bind_run, hnull]
    dsimp only
    rw [bind_run, hpresent]
    dsimp only [EventAccessor.change]
    cases withoutLast list (s.heap.handlers m c) with
    | none => rfl
    | some kept =>
      dsimp only
      rw [bind_run, storeHandlers_run hc hq]
      rfl

/-- An accessor that is answered was called on an object with a changed event. -/
theorem accessor_answered (hsound : s.heap.Sound m) (hq : s.heap.get? q = some (.delegate u list))
    {method : String} {y : Option Value}
    (h : (answerFor m call a.member method (some v) [.ref q]).run.run s = (.ok y, t)) :
    ∃ c f type fields, v = .ref c ∧ s.heap.get? c = some (.object type fields)
      ∧ s.heap.eventToken? m c = some f
      ∧ t = { s with
          heap := (a.change list (s.heap.handlers m c)).elim s.heap (s.heap.stored c f u)
          trace := t.trace }
      ∧ t.notices = s.notices := by
  obtain ⟨c, type, fields, field, rfl, hc, hf⟩ : ∃ c type fields field, v = .ref c
      ∧ s.heap.get? c = some (.object type fields) ∧ m.eventField? type = some field := by
    -- both accessors look up the receiver and its field before they do anything else
    cases a <;>
    · obtain ⟨_, _, hfound, h₁⟩ := Steps.bind_ok.mp h
      obtain ⟨c, field, o, rfl, rfl, rfl, ho, hfield⟩ := handlerArguments_ok hfound
      obtain ⟨_, _, hgiven, h₂⟩ := Steps.bind_ok.mp h₁
      rw [invocations_delegate hq] at hgiven
      obtain ⟨-, rfl⟩ := Prod.mk.inj hgiven
      obtain ⟨_, _, hcell, -⟩ := Steps.bind_ok.mp h₂
      obtain ⟨⟨type, fields, hc, -⟩, -⟩ := fieldOrNull_ok hcell
      obtain rfl := Option.some.inj (ho.symm.trans hc)
      exact ⟨c, type, fields, field, rfl, hc, hfield⟩
  have htoken : s.heap.eventToken? m c = some field.token := by
    rw [eventToken?_of_object hc, hf]
    rfl
  rw [accessor_run hc hf hsound hq] at h
  obtain ⟨-, rfl⟩ := Prod.mk.inj h
  have hnotice : (a.event c (firstTarget list)).notice? = none := by
    cases a <;> rfl
  exact ⟨c, field.token, type, fields, rfl, hc, htoken, rfl, Machine.notices_push rfl hnotice⟩

private theorem dispatch_ok {j : MethodId} (hd : m.method? i = some d)
    (h : (dispatch m r i d).run.run s = (.ok j, t)) :
    s = t ∧ ∃ e, m.method? j = some e ∧ e.name = d.name := by
  obtain ⟨type, z, htype, hrest⟩ := Steps.bind_ok.mp h
  obtain ⟨o, z', hread, hpure⟩ := Steps.bind_ok.mp htype
  obtain ⟨-, rfl⟩ := Prod.mk.inj hread
  obtain ⟨-, rfl⟩ := Prod.mk.inj hpure
  cases type with
  | none =>
    obtain ⟨hj, rfl⟩ := Prod.mk.inj hrest
    obtain rfl := Except.ok.inj hj
    exact ⟨rfl, d, hd, rfl⟩
  | some type =>
    obtain ⟨hj, rfl⟩ := Prod.mk.inj hrest
    refine ⟨rfl, ?_⟩
    rw [← Except.ok.inj hj]
    cases hfound : (m.methodInLine? type d.name).filter fun j =>
        (m.method? j).any fun c => c.params.length == d.params.length && !c.isStatic with
    | none => exact ⟨d, hd, rfl⟩
    | some k => exact Likeness.name_of_methodInLine? (Option.filter_eq_some_iff.mp hfound).1

theorem callOn_ok {c : Site} (hd : c.module.method? i = some d) (hname : d.name ≠ Surface.invoke)
    {arguments : List Value}
    (h : (c.callOn (invokeAt c.module bound) .callvirt i d v arguments).run.run s = (.ok x, t)) :
    ∃ j e, c.module.method? j = some e ∧ e.name = d.name
      ∧ (invokeAt c.module bound j (some v) arguments).run.run s = (.ok x, t) := by
  have hsame : (invokeAt c.module bound i (some v) arguments).run.run s = (.ok x, t) →
      ∃ j e, c.module.method? j = some e ∧ e.name = d.name
        ∧ (invokeAt c.module bound j (some v) arguments).run.run s = (.ok x, t) :=
    fun h => ⟨i, d, hd, rfl, h⟩
  cases v with
  | ref r =>
    obtain ⟨o, z, hread, h₁⟩ := Steps.bind_ok.mp
      (show (c.callOnObject (invokeAt c.module bound) i d r arguments).run.run s = _ from h)
    obtain ⟨-, rfl⟩ := Prod.mk.inj hread
    have hother : (d.name == Surface.invoke && o.isDelegate) = false := by
      rw [beq_eq_false_iff_ne.mpr hname, Bool.false_and]
    rw [hother] at h₁
    obtain ⟨j, z, hdispatch, h₂⟩ := Steps.bind_ok.mp h₁
    obtain ⟨rfl, e, he, hsame⟩ := dispatch_ok hd hdispatch
    exact ⟨j, e, he, hsame, h₂⟩
  | null => cases (Prod.mk.inj h).1
  | void | int | struct | address | function => exact hsame h

theorem accessor_ok (hd : m.method? i = some d) (hname : d.name = a.name) (hbody : d.body = none)
    (hhooks : s.hooks = Machine.withRuntimeMembers.hooks) (hsound : s.heap.Sound m)
    (hq : s.heap.get? q = some (.delegate u list))
    (h : (invokeAt m bound i (some v) [.ref q]).run.run s = (.ok x, t)) :
    ∃ c f type fields, v = .ref c ∧ s.heap.get? c = some (.object type fields)
      ∧ s.heap.eventToken? m c = some f
      ∧ t = { s.entered ⟨m, d⟩ i with
          heap := (a.change list (s.heap.handlers m c)).elim s.heap (s.heap.stored c f u)
          trace := t.trace }
      ∧ t.notices = s.notices := by
  cases bound with
  | zero => cases (Prod.mk.inj h).1
  | succ bound =>
    have hcall : (⟨m, d⟩ : Site).callName.method = a.name := hname
    have hentered : (s.entered ⟨m, d⟩ i).notices = s.notices := Machine.notices_push rfl rfl
    obtain ⟨y, hmember⟩ : ∃ y, (answerFor m (invokeAt m bound) a.member d.name (some v) [.ref q]).run.run
        (s.entered ⟨m, d⟩ i) = (.ok y, t) := by
      cases a with
      | add => exact member_of_invokeWith hd hbody (hhooks ▸ hook_adder hcall) rfl h
      | remove => exact member_of_invokeWith hd hbody (hhooks ▸ hook_remover hcall) rfl h
    obtain ⟨c, f, type, fields, hv, hc, hf, ht, hnotices⟩ :=
      accessor_answered (s := s.entered ⟨m, d⟩ i) hsound hq hmember
    exact ⟨c, f, type, fields, hv, hc, hf, ht, hnotices.trans hentered⟩

end Action

namespace Restraint

variable {m : Module} {R : Restraint m} {s : Machine}

theorem Tame.handlers (hs : R.Tame s) (c : HeapRef) :
    ∀ i ∈ s.heap.handlers m c, R.worlds.Invocations (fun _ _ => none) i i := by
  intro i hi
  unfold Heap.handlers Heap.listOf at hi
  split at hi
  · split at hi
    · rename_i hq
      cases hs.objects _ _ hq with
      | delegate _ hlist => exact List.forall₂_same.mp hlist i hi
    · cases hi
  · cases hi

theorem Tame.stored (hs : R.Tame s) {c : HeapRef} {type f u : Token} {fields : TokenMap Value}
    {list : List Invocation} (hc : s.heap.get? c = some (.object type fields))
    (hlist : ∀ i ∈ list, R.worlds.Invocations (fun _ _ => none) i i) :
    R.Tame { s with heap := s.heap.stored c f u list } := by
  unfold Heap.stored
  split
  · exact hs.put hc .null
  · have hmade : R.worlds.Objects (fun _ _ => none) (.delegate u list) (.delegate u list) :=
      .delegate u (List.forall₂_same.mpr hlist)
    exact (hs.push hmade).put (s := { s with heap := s.heap.push (.delegate u list) })
      (Heap.get?_push_of_some hc _) (.ref rfl)

end Restraint

theorem mem_of_change {a : EventAccessor} {given present list : List Invocation} {j : Invocation}
    {i : Invocation} (hgiven : given = [i]) (h : a.change given present = some list) (hj : j ∈ list) :
    j ∈ present ∨ j = i := by
  subst hgiven
  cases a with
  | add =>
    obtain rfl := Option.some.inj h
    rcases List.mem_append.mp hj with hj | hj
    · exact .inl hj
    · exact .inr (List.mem_singleton.mp hj)
  | remove =>
    left
    have hcount := count_of_withoutLast (j := j) h
    have hpos := List.count_pos_iff.mpr hj
    exact List.count_pos_iff.mp (by omega)

theorem Restraint.Tame.load {m : Module} {R : Restraint m} {s : Machine} (hs : R.Tame s) {i : MethodId}
    {d : Method} (hd : m.method? i = some d) :
    R.Tame { s with functions := s.functions.insert d.token i } := by
  refine hs.know fun k l hl => ?_
  rw [TokenMap.get?_insert] at hl
  split at hl
  · rename_i heq
    obtain rfl := Option.some.inj hl
    exact .inr ⟨d, hd, heq.symm⟩
  · exact .inl hl

theorem Restraint.Tame.changed {m : Module} {R : Restraint m} {s : Machine} (hs : R.Tame s) {c : HeapRef}
    {type f u : Token} {fields : TokenMap Value} {i : Invocation}
    (hc : s.heap.get? c = some (.object type fields))
    (hi : R.worlds.Invocations (fun _ _ => none) i i) (a : EventAccessor) :
    R.Tame { s with heap := (a.change [i] (s.heap.handlers m c)).elim s.heap (s.heap.stored c f u) } := by
  cases hchange : a.change [i] (s.heap.handlers m c) with
  | none => exact hs.update rfl rfl rfl
  | some list =>
    refine hs.stored hc fun j hj => ?_
    rcases mem_of_change rfl hchange hj with hj | rfl
    · exact hs.handlers c j hj
    · exact hi

end SetterLoom
