import SetterLoom.Proofs.Machine.Closed
import SetterLoom.Proofs.Machine.Handlers

/-!
# Any number of subscriptions

The accessors of the changed event are called one after the other, on any objects and with any delegates or
null, and in between objects are made. Every call is answered. The handlers of an object are what its own
calls made of them, in their order: adding appends the list of the handler, and removing takes out the last
place where it occurs. Nothing is stored behind an event without handlers.

* `withoutLast_eq_some`: what is left is the list without the last occurrence.
* `HandlerCall.run_effect`: one call.
* `Subscribing.subscriptions_followed`: any number of calls.
-/

namespace SetterLoom
set_option autoImplicit false

/-! ## The last occurrence -/

/-- The part stands between the two others, and nowhere later in the list. -/
structure LastBetween (part list front back : List Invocation) : Prop where
  between : list = front ++ (part ++ back)
  last : ∀ front' back', list = front' ++ (part ++ back') → front'.length ≤ front.length

section Occurrences

variable {part list kept front back : List Invocation}

theorem LastBetween.unique {front' back' : List Invocation} (h : LastBetween part list front back)
    (h' : LastBetween part list front' back') : front = front' ∧ back = back' := by
  have hlength := Nat.le_antisymm (h'.last _ _ h.between) (h.last _ _ h'.between)
  obtain ⟨hfront, hrest⟩ := List.append_inj (h.between.symm.trans h'.between) hlength
  exact ⟨hfront, List.append_cancel_left hrest⟩

theorem lastBetween_of_withoutLast (h : withoutLast part list = some kept) :
    ∃ front back, LastBetween part list front back ∧ kept = front ++ back := by
  induction list generalizing kept with
  | nil => cases h
  | cons i rest ih =>
    rw [withoutLast] at h
    cases hrest : withoutLast part rest with
    | some k =>
      simp only [hrest] at h
      obtain rfl := Option.some.inj h
      obtain ⟨front, back, hlast, rfl⟩ := ih hrest
      refine ⟨i :: front, back, ⟨congrArg (i :: ·) hlast.between, fun front' back' heq => ?_⟩, rfl⟩
      cases front' with
      | nil => exact Nat.zero_le _
      | cons j front' => exact Nat.succ_le_succ (hlast.last front' back' (List.cons.inj heq).2)
    | none =>
      simp only [hrest] at h
      split at h
      · rename_i hprefix
        obtain ⟨hpart, hprefix⟩ := Bool.and_eq_true_iff.mp hprefix
        obtain ⟨back, hback⟩ := List.isPrefixOf_iff_prefix.mp hprefix
        obtain rfl := Option.some.inj h
        refine ⟨[], back, ⟨hback.symm, fun front' back' heq => ?_⟩, by rw [← hback]; simp⟩
        -- behind the first place there is none, or it would have been taken
        cases front' with
        | nil => exact Nat.le_refl _
        | cons j front' =>
          have hin : part <:+: rest :=
            ⟨front', back', (List.append_assoc ..).trans (List.cons.inj heq).2.symm⟩
          rcases withoutLast_eq_none.mp hrest with rfl | hno
          · cases hpart
          · exact absurd hin hno
      · cases h

/-- What is left of a list is what stands in front of the last occurrence and behind it. -/
theorem withoutLast_eq_some : withoutLast part list = some kept
    ↔ part ≠ [] ∧ ∃ front back, LastBetween part list front back ∧ kept = front ++ back := by
  constructor
  · intro h
    refine ⟨fun hnil => ?_, lastBetween_of_withoutLast h⟩
    rw [withoutLast_eq_none.mpr (.inl hnil)] at h
    cases h
  · rintro ⟨hpart, front, back, hlast, rfl⟩
    cases h : withoutLast part list with
    | none =>
      refine absurd ((withoutLast_eq_none.mp h).resolve_left hpart) (not_not_intro ?_)
      exact ⟨front, back, (List.append_assoc ..).trans hlast.between.symm⟩
    | some kept =>
      obtain ⟨front', back', hlast', rfl⟩ := lastBetween_of_withoutLast h
      obtain ⟨rfl, rfl⟩ := hlast.unique hlast'
      rfl

end Occurrences

namespace EventAccessor

/-- What becomes of a list of handlers: the given list is appended, or taken out where it occurs last. If
there is nothing to take out, the list stays. -/
inductive Becomes (given present : List Invocation) : EventAccessor → List Invocation → Prop where
  | added : Becomes given present .add (present ++ given)
  | kept (h : given = [] ∨ ¬ given <:+: present) : Becomes given present .remove present
  | removed {front back : List Invocation} (hgiven : given ≠ [])
      (hlast : LastBetween given present front back) : Becomes given present .remove (front ++ back)

variable {given present next : List Invocation} {a : EventAccessor}

theorem becomes_iff : Becomes given present a next ↔ next = (a.change given present).getD present := by
  have hremove : change given .remove present = withoutLast given present := rfl
  constructor
  · intro h
    cases h with
    | added => rfl
    | kept h => rw [hremove, withoutLast_eq_none.mpr h, Option.getD_none]
    | removed hgiven hlast =>
      rw [hremove, withoutLast_eq_some.mpr ⟨hgiven, _, _, hlast, rfl⟩, Option.getD_some]
  · rintro rfl
    cases a with
    | add => exact .added
    | remove =>
      rw [hremove]
      cases h : withoutLast given present with
      | none => exact .kept (withoutLast_eq_none.mp h)
      | some kept =>
        obtain ⟨hgiven, front, back, hlast, rfl⟩ := withoutLast_eq_some.mp h
        exact .removed hgiven hlast

theorem becomes_restored (hadded : Becomes given present .add next) {restored : List Invocation}
    (hremoved : Becomes given next .remove restored) : restored = present := by
  obtain rfl := becomes_iff.mp hadded
  obtain rfl := becomes_iff.mp hremoved
  show (withoutLast given (present ++ given)).getD (present ++ given) = present
  by_cases hgiven : given = []
  · rw [withoutLast_eq_none.mpr (.inl hgiven), hgiven]
    exact List.append_nil present
  · have hlast : LastBetween given (present ++ given) present [] := by
      refine ⟨by rw [List.append_nil], fun front back heq => ?_⟩
      have hlength := congrArg List.length heq
      simp only [List.length_append] at hlength
      omega
    rw [withoutLast_eq_some.mpr ⟨hgiven, present, [], hlast, rfl⟩]
    exact List.append_nil present

end EventAccessor

/-! ## What is stored behind an event -/

namespace Heap

variable {m : Module} {h : Heap} {c r : HeapRef} {o : HeapObject} {f t u : Token}
  {fields : TokenMap Value} {list : List Invocation}

/-- Behind changed events there are delegates with handlers. -/
def Tidy (m : Module) (h : Heap) : Prop :=
  ∀ c v, h.changedCell m c = some v →
    v = .null ∨ ∃ q type list, v = .ref q ∧ h.get? q = some (.delegate type list) ∧ list ≠ []

theorem Tidy.sound (htidy : h.Tidy m) : h.Sound m := by
  intro c v hv
  rcases htidy c v hv with rfl | ⟨q, type, list, rfl, hq, -⟩
  · exact .inl rfl
  · exact .inr ⟨q, type, list, rfl, hq⟩

theorem Tidy.stored_iff (htidy : h.Tidy m) (c : HeapRef) :
    h.changedCell m c = none ∨ h.changedCell m c = some .null ↔ h.handlers m c = [] := by
  unfold handlers
  cases hcell : h.changedCell m c with
  | none => simp [listOf]
  | some v =>
    rcases htidy c v hcell with rfl | ⟨q, type, list, rfl, hq, hlist⟩
    · simp [listOf]
    · simp [listOf, hq, hlist]

theorem Tidy.push (htidy : h.Tidy m) (ho : o.Made) : (h.push o).Tidy m := by
  intro c v hv
  rw [changedCell_push ho] at hv
  rcases htidy c v hv with rfl | ⟨q, type, list, rfl, hq, hlist⟩
  · exact .inl rfl
  · exact .inr ⟨q, type, list, rfl, get?_push_of_some hq o, hlist⟩

theorem Tidy.stored (htidy : h.Tidy m) (hc : h.get? c = some (.object t fields))
    (hf : h.eventToken? m c = some f) : (h.stored c f u list).Tidy m := by
  intro r v hv
  rw [changedCell_stored hc hf] at hv
  split at hv
  · cases hlist : list.isEmpty with
    | true =>
      rw [hlist] at hv
      exact .inl (Option.some.inj hv).symm
    | false =>
      rw [hlist] at hv
      exact .inr ⟨_, _, _, (Option.some.inj hv).symm, get?_stored_new hc hlist,
        fun hnil => by rw [hnil] at hlist; cases hlist⟩
  · rcases htidy r v hv with rfl | ⟨q, type, list', rfl, hq, hlist⟩
    · exact .inl rfl
    · exact .inr ⟨q, type, list', rfl, get?_stored_delegate hc hq, hlist⟩

theorem get?_stored_object (hc : h.get? c = some (.object t fields)) {type : Token}
    {fields' : TokenMap Value} (hr : h.get? r = some (.object type fields')) :
    ∃ fields'', (h.stored c f u list).get? r = some (.object type fields'') := by
  have hput : ∀ (h : Heap) v, h.get? c = some (.object t fields) → h.get? r = some (.object type fields') →
      ∃ fields'', (h.put c f v).get? r = some (.object type fields'') := by
    intro h v hc hr
    rw [get?_put h c r f v (get?_eq_some hc).1, hr]
    split
    · exact ⟨fields'.insert f v, rfl⟩
    · exact ⟨fields', rfl⟩
  unfold Heap.stored
  split
  · exact hput h .null hc hr
  · exact hput _ _ (get?_push_of_some hc _) (get?_push_of_some hr _)

end Heap

/-! ## One call -/

namespace Action

variable {m : Module} {call : Call} {s : Machine} {c : HeapRef}

theorem accessor_null_run (a : EventAccessor) (method : String) :
    (answerFor m call a.member method (some (.ref c)) [.null]).run.run s = (.ok none, s) := by
  cases a <;> rfl

end Action

/-- A call of an accessor on an object, with a handler or null. -/
structure HandlerCall where
  accessor : EventAccessor
  method : MethodId
  source : HeapRef
  handler : Value

/-- An accessor was called on an object. Null is not a handler and has no list. -/
structure Subscription where
  accessor : EventAccessor
  source : HeapRef
  handler : Option (List Invocation)

namespace Subscription

/-- What the call puts on the trace. -/
def event (e : Subscription) : Option TraceEvent :=
  e.handler.map fun list => e.accessor.event e.source (Action.firstTarget list)

/-- What the handlers of one object become, call after call. -/
inductive Lists (c : HeapRef) (start : List Invocation) : List Subscription → List Invocation → Prop where
  | start : Lists c start [] start
  | other {es : List Subscription} {list : List Invocation} {e : Subscription} (h : Lists c start es list)
      (hsource : e.source ≠ c) : Lists c start (es ++ [e]) list
  | own {es : List Subscription} {list next : List Invocation} {e : Subscription} (h : Lists c start es list)
      (hsource : e.source = c) (hnext : e.accessor.Becomes (e.handler.getD []) list next) :
      Lists c start (es ++ [e]) next

end Subscription

namespace HandlerCall

variable {m : Module} {a : HandlerCall} {s t : Machine}

def run (m : Module) (a : HandlerCall) : Action Value :=
  Action.invoke m a.method (some (.ref a.source)) [a.handler]

/-- The list of the handler in a state. -/
def given? (a : HandlerCall) (s : Machine) : Option (List Invocation) :=
  match a.handler with
  | .ref _ => some (s.heap.listOf (some a.handler))
  | _ => none

/-- The call as it is in a state. -/
def made (a : HandlerCall) (s : Machine) : Subscription := ⟨a.accessor, a.source, a.given? s⟩

/-- The machine answers the call for the accessor, the object has the field behind the event, and the handler
is a delegate or null. -/
structure Answered (m : Module) (a : HandlerCall) (s : Machine) : Prop where
  depth : s.depth < maxDepth
  method : ∃ d h, m.method? a.method = some d ∧ d.body = none
    ∧ s.hooks.find? (⟨m, d⟩ : Site).callName = some h ∧ h.action = .runtime a.accessor.member
  source : ∃ type fields field, s.heap.get? a.source = some (.object type fields)
    ∧ m.eventField? type = some field
  handler : a.handler = .null
    ∨ ∃ q u list, a.handler = .ref q ∧ s.heap.get? q = some (.delegate u list)

theorem fits_of_name {d : Method} (hhooks : s.hooks = Machine.withRuntimeMembers.hooks)
    (hname : d.name = a.accessor.name) :
    ∃ h, s.hooks.find? (⟨m, d⟩ : Site).callName = some h ∧ h.action = .runtime a.accessor.member := by
  have hcall : (⟨m, d⟩ : Site).callName.method = a.accessor.name := hname
  rw [hhooks]
  cases haccessor : a.accessor with
  | add =>
    rw [haccessor] at hcall
    exact ⟨_, hook_adder hcall, rfl⟩
  | remove =>
    rw [haccessor] at hcall
    exact ⟨_, hook_remover hcall, rfl⟩

/-- What one call does: the handlers of its object become what they should, and those of all others stay. The
call is on the trace, and if a handler was given also that it was added or removed. -/
structure Effect (m : Module) (a : HandlerCall) (s t : Machine) : Prop where
  tidy : t.heap.Tidy m
  own : a.accessor.Becomes ((a.given? s).getD []) (s.heap.handlers m a.source) (t.heap.handlers m a.source)
  others : ∀ c, c ≠ a.source → t.heap.handlers m c = s.heap.handlers m c
  trace : ∃ name, t.trace.toList = s.trace.toList ++ .called name :: (a.made s).event.toList
  depth : t.depth = s.depth
  hooks : t.hooks = s.hooks
  objects : ∀ {c type fields}, s.heap.get? c = some (.object type fields) →
    ∃ fields', t.heap.get? c = some (.object type fields')
  delegates : ∀ {q u list}, s.heap.get? q = some (.delegate u list) → t.heap.get? q = some (.delegate u list)

theorem run_delegate {q : HeapRef} {u : Token} {list : List Invocation} (hs : s.heap.Tidy m)
    (ha : a.Answered m s) (hhandler : a.handler = .ref q) (hq : s.heap.get? q = some (.delegate u list)) :
    ∃ t, (a.run m).run.run s = (.ok .void, t) ∧ a.Effect m s t := by
  obtain ⟨d, h, hd, hbody, hhook, haction⟩ := ha.method
  obtain ⟨type, fields, field, hc, hf⟩ := ha.source
  have htoken : s.heap.eventToken? m a.source = some field.token := by
    rw [Action.eventToken?_of_object hc, hf]
    rfl
  have hgiven : a.given? s = some list := by
    unfold given?
    rw [hhandler]
    simp only [Heap.listOf, hq]
  have hrun : (a.run m).run.run s
      = (.ok .void, { s.entered ⟨m, d⟩ a.method with
          heap := (a.accessor.change list (s.heap.handlers m a.source)).elim s.heap
            (s.heap.stored a.source field.token u)
          trace := (s.entered ⟨m, d⟩ a.method).trace.push
            (a.accessor.event a.source (Action.firstTarget list)) }) := by
    unfold run
    rw [Action.invoke_run, hhandler]
    show (Action.invokeWith m _ a.method (some (.ref a.source)) [.ref q]).run.run s = _
    rw [Action.invokeWith_member hd hbody hhook haction _ _ ha.depth,
      Action.accessor_run (s := s.entered ⟨m, d⟩ a.method) hc hf hs.sound hq]
    rfl
  refine ⟨_, hrun, ?_⟩
  have htrace : ((s.entered ⟨m, d⟩ a.method).trace.push
        (a.accessor.event a.source (Action.firstTarget list))).toList
      = s.trace.toList ++ .called (⟨m, d⟩ : Site).name :: (a.made s).event.toList := by
    unfold made Subscription.event
    rw [hgiven]
    simp [Machine.entered]
  -- either nothing changes, as the handler was not there, or the list of the source is stored again
  cases hchange : a.accessor.change list (s.heap.handlers m a.source) with
  | none =>
    have hown : a.accessor.Becomes list (s.heap.handlers m a.source) (s.heap.handlers m a.source) := by
      rw [EventAccessor.becomes_iff, hchange, Option.getD_none]
    rw [hchange] at hrun
    exact ⟨hs, by rw [hgiven]; exact hown, fun _ _ => rfl, ⟨_, htrace⟩, rfl, rfl, fun hr => ⟨_, hr⟩, id⟩
  | some next =>
    have hhandlers : ∀ r, (s.heap.stored a.source field.token u next).handlers m r
        = if r = a.source then next else s.heap.handlers m r :=
      fun r => (Heap.handlers_stored hc hs.sound htoken).2
    have hown : a.accessor.Becomes list (s.heap.handlers m a.source) next := by
      rw [EventAccessor.becomes_iff, hchange, Option.getD_some]
    refine ⟨hs.stored hc htoken, ?_, fun c hne => (hhandlers c).trans (if_neg hne), ⟨_, htrace⟩, rfl, rfl,
      Heap.get?_stored_object hc, Heap.get?_stored_delegate hc⟩
    rw [hgiven]
    show a.accessor.Becomes list _ ((s.heap.stored a.source field.token u next).handlers m a.source)
    rw [hhandlers, if_pos rfl]
    exact hown

theorem run_null (hs : s.heap.Tidy m) (ha : a.Answered m s) (hhandler : a.handler = .null) :
    ∃ t, (a.run m).run.run s = (.ok .void, t) ∧ a.Effect m s t := by
  obtain ⟨d, h, hd, hbody, hhook, haction⟩ := ha.method
  have hgiven : a.given? s = none := by
    unfold given?
    rw [hhandler]
  have hrun : (a.run m).run.run s = (.ok .void, s.entered ⟨m, d⟩ a.method) := by
    unfold run
    rw [Action.invoke_run, hhandler]
    show (Action.invokeWith m _ a.method (some (.ref a.source)) [.null]).run.run s = _
    rw [Action.invokeWith_member hd hbody hhook haction _ _ ha.depth, Action.accessor_null_run]
    rfl
  have hown : a.accessor.Becomes [] (s.heap.handlers m a.source) (s.heap.handlers m a.source) := by
    cases a.accessor with
    | add =>
      rw [EventAccessor.becomes_iff]
      exact (List.append_nil _).symm
    | remove => exact .kept (.inl rfl)
  refine ⟨_, hrun, hs, by rw [hgiven]; exact hown, fun _ _ => rfl, ⟨(⟨m, d⟩ : Site).name, ?_⟩, rfl, rfl,
    fun hr => ⟨_, hr⟩, id⟩
  unfold made Subscription.event
  rw [hgiven]
  simp [Machine.entered]

theorem run_effect (hs : s.heap.Tidy m) (ha : a.Answered m s) :
    ∃ t, (a.run m).run.run s = (.ok .void, t) ∧ a.Effect m s t := by
  rcases ha.handler with hnull | ⟨q, u, list, hq, hdelegate⟩
  · exact run_null hs ha hnull
  · exact run_delegate hs ha hq hdelegate

theorem Answered.later {b : HandlerCall} (hb : b.Answered m s) (h : a.Effect m s t) : b.Answered m t := by
  obtain ⟨type, fields, field, hc, hf⟩ := hb.source
  obtain ⟨fields', hc'⟩ := h.objects hc
  refine ⟨h.depth ▸ hb.depth, h.hooks ▸ hb.method, ⟨type, fields', field, hc', hf⟩, ?_⟩
  rcases hb.handler with hnull | ⟨q, u, list, hq, hdelegate⟩
  · exact .inl hnull
  · exact .inr ⟨q, u, list, hq, h.delegates hdelegate⟩

theorem given?_later {b : HandlerCall} (hb : b.Answered m s) (h : a.Effect m s t) : b.given? t = b.given? s := by
  unfold given?
  rcases hb.handler with hnull | ⟨q, u, list, hq, hdelegate⟩
  · rw [hnull]
  · rw [hq]
    simp only [Heap.listOf, hdelegate, h.delegates hdelegate]

/-- Removing a handler right after it was added leaves all handlers as they were. -/
theorem run_restored {b : HandlerCall} (hs : s.heap.Tidy m) (ha : a.Answered m s) (hb : b.Answered m s)
    (hadd : a.accessor = .add) (hremove : b.accessor = .remove) (hsource : b.source = a.source)
    (hhandler : b.handler = a.handler) :
    ∃ t u, (a.run m).run.run s = (.ok .void, t) ∧ (b.run m).run.run t = (.ok .void, u)
      ∧ ∀ c, u.heap.handlers m c = s.heap.handlers m c := by
  obtain ⟨t, hadded, hafter⟩ := run_effect hs ha
  obtain ⟨u, hremoved, hend⟩ := run_effect hafter.tidy (hb.later hafter)
  refine ⟨t, u, hadded, hremoved, fun c => ?_⟩
  by_cases hc : c = a.source
  · have hgiven : b.given? t = a.given? s := by
      rw [given?_later hb hafter]
      unfold given?
      rw [hhandler]
    have hfirst := hafter.own
    have hsecond := hend.own
    rw [hadd] at hfirst
    rw [hremove, hsource, hgiven] at hsecond
    rw [hc]
    exact EventAccessor.becomes_restored hfirst hsecond
  · rw [hend.others c (hsource ▸ hc), hafter.others c hc]

end HandlerCall

/-! ## Any number of calls -/

/-- Accessors were called one after the other, and objects were made in between. -/
inductive Subscribing (m : Module) (s : Machine) : List Subscription → Machine → Prop where
  | start : Subscribing m s [] s
  | made {es : List Subscription} {t : Machine} {o : HeapObject} (h : Subscribing m s es t) (ho : o.Made) :
      Subscribing m s es { t with heap := t.heap.push o }
  | called {es : List Subscription} {t u : Machine} {a : HandlerCall} {result : Except Error Value}
      (h : Subscribing m s es t) (ha : a.Answered m t) (hrun : (a.run m).run.run t = (result, u)) :
      Subscribing m s (es ++ [a.made t]) u

/-- The event is about a handler. -/
def TraceEvent.isSubscription : TraceEvent → Bool
  | .subscribed _ _ | .unsubscribed _ _ => true
  | .called _ | .notified _ _ _ _ => false

/-- The calls so far, and the next one. -/
structure Machine.Follows (m : Module) (s : Machine) (es : List Subscription) (t : Machine) : Prop where
  /-- The handlers of every object are what its own calls made of them. -/
  lists : ∀ c, Subscription.Lists c (s.heap.handlers m c) es (t.heap.handlers m c)
  /-- Nothing or null is stored exactly behind the events without handlers. -/
  stored : ∀ c, t.heap.changedCell m c = none ∨ t.heap.changedCell m c = some .null
    ↔ t.heap.handlers m c = []
  /-- The trace tells of every call with a handler once, in their order. -/
  recorded : t.trace.toList.filter TraceEvent.isSubscription
    = s.trace.toList.filter TraceEvent.isSubscription ++ es.filterMap Subscription.event
  /-- The next call returns, and changes the handlers of its own object only. -/
  answered : ∀ a : HandlerCall, a.Answered m t → ∃ u, (a.run m).run.run t = (.ok .void, u)
    ∧ (∀ c, c ≠ a.source → u.heap.handlers m c = t.heap.handlers m c)
    ∧ ∃ name, u.trace.toList = t.trace.toList ++ .called name :: (a.made t).event.toList
  /-- Adding a handler and removing it leaves all handlers as they are. -/
  restored : ∀ a b : HandlerCall, a.Answered m t → b.Answered m t → a.accessor = .add → b.accessor = .remove →
    b.source = a.source → b.handler = a.handler →
      ∃ u v, (a.run m).run.run t = (.ok .void, u) ∧ (b.run m).run.run u = (.ok .void, v)
        ∧ ∀ c, v.heap.handlers m c = t.heap.handlers m c

namespace Subscribing

variable {m : Module} {s t : Machine} {es : List Subscription}

theorem tidy (hs : s.heap.Tidy m) (h : Subscribing m s es t) : t.heap.Tidy m := by
  induction h with
  | start => exact hs
  | made _ ho ih => exact ih.push ho
  | called _ ha hrun ih =>
    obtain ⟨u, hanswered, heffect⟩ := HandlerCall.run_effect ih ha
    obtain ⟨-, rfl⟩ := Prod.mk.inj (hanswered.symm.trans hrun)
    exact heffect.tidy

theorem lists (hs : s.heap.Tidy m) (h : Subscribing m s es t) (c : HeapRef) :
    Subscription.Lists c (s.heap.handlers m c) es (t.heap.handlers m c) := by
  induction h with
  | start => exact .start
  | made h ho ih =>
    rw [Heap.handlers_push (h.tidy hs).sound ho]
    exact ih
  | @called _ t u a _ h ha hrun ih =>
    obtain ⟨u, hanswered, heffect⟩ := HandlerCall.run_effect (h.tidy hs) ha
    obtain ⟨-, rfl⟩ := Prod.mk.inj (hanswered.symm.trans hrun)
    -- a call on another object leaves the list as it is
    by_cases hc : a.source = c
    · subst hc
      exact .own ih rfl heffect.own
    · rw [heffect.others c (Ne.symm hc)]
      exact .other ih hc

theorem recorded (hs : s.heap.Tidy m) (h : Subscribing m s es t) :
    t.trace.toList.filter TraceEvent.isSubscription
      = s.trace.toList.filter TraceEvent.isSubscription ++ es.filterMap Subscription.event := by
  induction h with
  | start => simp
  | made _ _ ih => exact ih
  | @called es t u a _ h ha hrun ih =>
    obtain ⟨u, hanswered, heffect⟩ := HandlerCall.run_effect (h.tidy hs) ha
    obtain ⟨-, rfl⟩ := Prod.mk.inj (hanswered.symm.trans hrun)
    obtain ⟨name, htrace⟩ := heffect.trace
    have hown : (a.made t).event.toList.filter TraceEvent.isSubscription = (a.made t).event.toList := by
      unfold Subscription.event
      cases (a.made t).handler with
      | none => rfl
      | some list => cases (a.made t).accessor <;> rfl
    have hlast : [a.made t].filterMap Subscription.event = (a.made t).event.toList := by
      cases hevent : (a.made t).event <;> simp [hevent]
    have hcalled : (TraceEvent.called name).isSubscription = false := rfl
    rw [htrace, List.filter_append, ih, List.filterMap_append, hlast, List.append_assoc,
      List.filter_cons_of_neg (by rw [hcalled]; exact Bool.false_ne_true), hown]

/-- However often the accessors are called, on any objects and with any delegates or null: every call
returns, the handlers of every object are what its own calls made of them, nothing is stored behind events
without handlers, and every call with a handler is recorded once. -/
theorem subscriptions_followed (hs : s.heap.Tidy m) (h : Subscribing m s es t) : s.Follows m es t where
  lists := h.lists hs
  stored := (h.tidy hs).stored_iff
  recorded := h.recorded hs
  answered a ha := by
    obtain ⟨u, hrun, heffect⟩ := HandlerCall.run_effect (h.tidy hs) ha
    exact ⟨u, hrun, heffect.others, heffect.trace⟩
  restored a b ha hb hadd hremove hsource hhandler :=
    HandlerCall.run_restored (h.tidy hs) ha hb hadd hremove hsource hhandler

end Subscribing

namespace Echo

/-- Two handlers of a node. -/
def heard : Invocation := ⟨some ⟨1⟩, ⟨36⟩⟩

def raised : Invocation := ⟨some ⟨1⟩, ⟨32⟩⟩

/-- A machine with a node, a name and two delegates, one with both handlers and one with the first of them. -/
def listeners : Machine :=
  { machine 600 with
    heap := ((machine 600).heap.push (.delegate ⟨13⟩ [heard, raised])).push (.delegate ⟨13⟩ [heard]) }

/-- The handlers are added to the event of the node. -/
def adding : HandlerCall := ⟨.add, ⟨0⟩, ⟨1⟩, .ref ⟨3⟩⟩

/-- One of them is removed. -/
def removing : HandlerCall := ⟨.remove, ⟨1⟩, ⟨1⟩, .ref ⟨4⟩⟩

theorem tidy_listeners : listeners.heap.Tidy (module ⟨6⟩) := by
  have hempty : (start 600).heap.Tidy (module ⟨6⟩) := by
    intro c v hv
    have hnone : (start 600).heap.get? c = none := by
      cases hget : (start 600).heap.get? c with
      | none => rfl
      | some o =>
        have hsize := Heap.get?_eq_some hget
        have hzero : (start 600).heap.size = 0 := rfl
        omega
    unfold Heap.changedCell Heap.eventToken? Heap.typeAt at hv
    rw [hnone] at hv
    cases hv
  have hnode : (HeapObject.object ⟨11⟩ .empty).Made := by
    intro type fields heq
    obtain ⟨-, rfl⟩ := HeapObject.object.inj heq
    rfl
  have hname : (HeapObject.string "Name").Made := fun _ _ heq => by cases heq
  exact (((hempty.push hnode).push hname).push Heap.made_delegate).push Heap.made_delegate

theorem answered_adding : adding.Answered (module ⟨6⟩) listeners := by
  obtain ⟨h, hfind, haction⟩ := HandlerCall.fits_of_name (m := module ⟨6⟩) (a := adding) (s := listeners)
    (d := method 30 (Surface.adder Surface.changedEvent) 1 ⟨1⟩) rfl rfl
  exact ⟨by decide, ⟨_, h, rfl, rfl, hfind, haction⟩, ⟨_, _, handlers, rfl, by decide +kernel⟩,
    .inr ⟨⟨3⟩, ⟨13⟩, _, rfl, rfl⟩⟩

theorem answered_removing : removing.Answered (module ⟨6⟩) listeners := by
  obtain ⟨h, hfind, haction⟩ := HandlerCall.fits_of_name (m := module ⟨6⟩) (a := removing) (s := listeners)
    (d := method 31 (Surface.remover Surface.changedEvent) 1 ⟨1⟩) rfl rfl
  exact ⟨by decide, ⟨_, h, rfl, rfl, hfind, haction⟩, ⟨_, _, handlers, rfl, by decide +kernel⟩,
    .inr ⟨⟨4⟩, ⟨13⟩, _, rfl, rfl⟩⟩

end Echo

/-- Two handlers are added and one of them is removed. -/
theorem Subscribing.subscriptions_followed_listeners :
    ∃ es t, Subscribing (Echo.module ⟨6⟩) Echo.listeners es t ∧ es.length = 2
      ∧ Echo.listeners.Follows (Echo.module ⟨6⟩) es t
      ∧ t.heap.handlers (Echo.module ⟨6⟩) ⟨1⟩ = [Echo.raised] := by
  obtain ⟨t, hadded, hafter⟩ := HandlerCall.run_effect Echo.tidy_listeners Echo.answered_adding
  obtain ⟨u, hremoved, -⟩ :=
    HandlerCall.run_effect hafter.tidy (Echo.answered_removing.later hafter)
  have hboth := (Subscribing.start.called Echo.answered_adding hadded).called
    (Echo.answered_removing.later hafter) hremoved
  refine ⟨_, u, hboth, rfl, subscriptions_followed Echo.tidy_listeners hboth, ?_⟩
  have hu : u = ((Echo.removing.run (Echo.module ⟨6⟩)).run.run
      ((Echo.adding.run (Echo.module ⟨6⟩)).run.run Echo.listeners).2).2 := by
    rw [hadded, hremoved]
  rw [hu]
  decide +kernel

end SetterLoom
