import SetterLoom.Proofs.Machine.Upkeep

/-!
# Objects and members of the runtime, upheld

Making objects, calling delegates, and what the machine answers for the members of the runtime agree if the
calls made on the way do. Raising the event is the only one of the answers that calls: it makes the event
arguments first, and what is asked of its calls may depend on that.

* `agree_construct`, `agree_invokeDelegate`, `agree_dispatch`: objects at work.
* `agree_answerFor`: the members of the runtime.
-/

namespace SetterLoom
set_option autoImplicit false

theorem mem_of_withoutLast {part list kept : List Invocation} {i : Invocation}
    (h : withoutLast part list = some kept) (hi : i ∈ kept) : i ∈ list := by
  induction list generalizing kept with
  | nil => cases h
  | cons j rest ih =>
    unfold withoutLast at h
    split at h
    · rename_i kept' hkept
      obtain rfl := Option.some.inj h
      rcases List.mem_cons.mp hi with rfl | hi
      · exact List.mem_cons_self
      · exact List.mem_cons_of_mem _ (ih hkept hi)
    · split at h
      · obtain rfl := Option.some.inj h
        exact List.mem_of_mem_drop hi
      · cases h

namespace Upkeep

variable {m : Module} {U : Upkeep m} {s t : Machine} {call call' : Call}

/-! ## Objects at work -/

/-- From a state on, all calls with what code may have got hold of agree. -/
def Calls (U : Upkeep m) (s : Machine) (call call' : Call) : Prop :=
  ∀ ⦃t i this arguments⦄, U.le s t → U.inv t → (∀ v, this = some v → (U.scope t).Value v) →
    (∀ v ∈ arguments, (U.scope t).Value v) →
      U.Agree t (fun u v => (U.scope u).Value v) (call i this arguments) (call' i this arguments)

theorem Calls.later (hcalls : U.Calls s call call') (hle : U.le s t) : U.Calls t call call' :=
  fun _ _ _ _ hle' => hcalls (U.trans hle hle')

variable {P : MethodId → Prop}

/-- All calls of certain methods agree. -/
def CallsTo (U : Upkeep m) (P : MethodId → Prop) (s : Machine) (call call' : Call) : Prop :=
  ∀ ⦃t i this arguments⦄, P i → U.le s t → U.inv t → (∀ v, this = some v → (U.scope t).Value v) →
    (∀ v ∈ arguments, (U.scope t).Value v) →
      U.Agree t (fun u v => (U.scope u).Value v) (call i this arguments) (call' i this arguments)

theorem CallsTo.later (hcalls : U.CallsTo P s call call') (hle : U.le s t) : U.CallsTo P t call call' :=
  fun _ _ _ _ hi hle' => hcalls hi (U.trans hle hle')

theorem Calls.to (hcalls : U.Calls s call call') : U.CallsTo P s call call' :=
  fun _ _ _ _ _ hle => hcalls hle

theorem values_later (hle : U.le s t) {values : List Value}
    (h : ∀ v ∈ values, (U.scope s).Value v) : ∀ v ∈ values, (U.scope t).Value v :=
  fun v hv => (U.grow hle).value (h v hv)

theorem invocations_later (hle : U.le s t) {list : List Invocation}
    (h : ∀ i ∈ list, (U.scope s).Invocation i) : ∀ i ∈ list, (U.scope t).Invocation i :=
  fun i hi => (U.grow hle).invocation (h i hi)

section Objects

variable (hs : U.inv s)
include hs

theorem agree_constructedType (i : MethodId) :
    U.Agree s (fun _ _ => True) (Action.constructedType m i) (Action.constructedType m i) := by
  unfold Action.constructedType
  simp only
  split
  · exact agree_pure hs trivial
  · exact agree_fault hs rfl rfl

theorem agree_makeDelegate (type : TypeDef) {arguments : List Value}
    (harguments : ∀ v ∈ arguments, (U.scope s).Value v) :
    U.Agree s (fun u v => (U.scope u).Value v) (Action.makeDelegate type arguments)
      (Action.makeDelegate type arguments) := by
  unfold Action.makeDelegate
  split
  · rename_i target method
    have hlist : (U.scope s).Object (.delegate type.token [⟨target.ref?, method⟩]) := by
      intro i hi
      obtain rfl := List.mem_singleton.mp hi
      refine ⟨fun r hr => ?_, harguments (.function method) (by simp)⟩
      cases target with
      | ref q =>
        obtain rfl := Option.some.inj hr
        exact harguments (.ref q) (by simp)
      | void | int | null | struct | address | function => cases hr
    exact (agree_alloc hs hlist).map fun _ _ _ _ hr => hr
  · exact agree_fault hs rfl rfl

theorem agree_construct {i : MethodId} (hcalls : U.CallsTo (· = i) s call call') {arguments : List Value}
    (harguments : ∀ v ∈ arguments, (U.scope s).Value v) :
    U.Agree s (fun u v => (U.scope u).Value v) (Action.construct m call i arguments)
      (Action.construct m call' i arguments) := by
  refine (agree_constructedType hs i).bind fun s₁ owner hle₁ hs₁ _ => ?_
  obtain ⟨t, d⟩ := owner
  have harguments₁ := values_later hle₁ harguments
  dsimp only
  split
  · exact agree_makeDelegate hs₁ d harguments₁
  · refine (agree_allocObject hs₁ d.token).bind fun s₂ object hle₂ hs₂ hobject => ?_
    refine (hcalls rfl (U.trans hle₁ hle₂) hs₂ (fun v hv => ?_) (values_later hle₂ harguments₁)).bind
      fun s₃ _ hle₃ hs₃ _ => ?_
    · obtain rfl := Option.some.inj hv
      exact hobject
    · exact agree_pure hs₃ ((U.grow hle₃).value hobject)

theorem agree_invokeEach (hcalls : U.CallsTo U.Handles s call call') {arguments : List Value}
    {list : List Invocation} (harguments : ∀ v ∈ arguments, (U.scope s).Value v)
    (hlist : ∀ i ∈ list, (U.scope s).Invocation i) :
    U.Agree s (fun _ _ => True) (Action.invokeEach call arguments list)
      (Action.invokeEach call' arguments list) := by
  induction list generalizing s with
  | nil => exact agree_pure hs trivial
  | cons invocation rest ih =>
    have hinvocation := hlist invocation List.mem_cons_self
    refine (agree_known hs hinvocation.method).bind fun s₁ i hle₁ hs₁ hi => ?_
    refine (hcalls hi hle₁ hs₁ (fun v hv => ?_) (values_later hle₁ harguments)).bind
      fun s₂ _ hle₂ hs₂ _ => ?_
    · obtain ⟨r, hr, rfl⟩ := Option.map_eq_some_iff.mp hv
      exact (U.grow hle₁).ref r (hinvocation.target r hr)
    · have hle := U.trans hle₁ hle₂
      exact ih hs₂ (hcalls.later hle) (values_later hle harguments)
        fun i hi => (U.grow hle).invocation (hlist i (List.mem_cons_of_mem _ hi))

theorem agree_invokeDelegate (hcalls : U.CallsTo U.Handles s call call') {r : HeapRef}
    (hr : (U.scope s).ref r) {arguments : List Value}
    (harguments : ∀ v ∈ arguments, (U.scope s).Value v) :
    U.Agree s (fun _ _ => True) (Action.invokeDelegate call r arguments)
      (Action.invokeDelegate call' r arguments) := by
  refine (agree_heap_get hs hr).bind fun s₁ o hle₁ hs₁ ho => ?_
  cases o with
  | delegate type list =>
    exact agree_invokeEach hs₁ (hcalls.later hle₁) (values_later hle₁ harguments) ho
  | string | object | boxed => exact agree_fault hs₁ rfl rfl

theorem agree_runtimeType {r : HeapRef} (hr : (U.scope s).ref r) :
    U.Agree s (fun _ _ => True) (Action.runtimeType m r) (Action.runtimeType m r) :=
  (agree_heap_typeOf hs hr).bind fun _ _ _ hs₁ _ => agree_pure hs₁ trivial

theorem agree_dispatch {r : HeapRef} (hr : (U.scope s).ref r) (i : MethodId) (d : Method) :
    U.Agree s (fun _ _ => True) (Action.dispatch m r i d) (Action.dispatch m r i d) := by
  refine (agree_runtimeType hs hr).bind fun s₁ type _ hs₁ _ => ?_
  cases type with
  | none => exact agree_pure hs₁ trivial
  | some t => exact agree_pure hs₁ trivial

/-! ## Comparing -/

theorem agree_valuesEqual {a b : Value} (ha : (U.scope s).Value a) (hb : (U.scope s).Value b) :
    U.Agree s (fun _ _ => True) (Action.valuesEqual a b) (Action.valuesEqual a b) := by
  unfold Action.valuesEqual
  split
  · rename_i p q
    split
    · exact agree_pure hs trivial
    · refine (agree_heap_get hs ha).bind fun s₁ o hle₁ hs₁ _ => ?_
      refine (agree_heap_get hs₁ ((U.grow hle₁).ref q hb)).bind fun s₂ o' _ hs₂ _ => ?_
      split <;> exact agree_pure hs₂ trivial
  · exact agree_pure hs trivial

theorem agree_objectEquals {arguments : List Value}
    (harguments : ∀ v ∈ arguments, (U.scope s).Value v) :
    U.Agree s (fun u x => ∀ v, x = some v → (U.scope u).Value v) (Action.objectEquals arguments)
      (Action.objectEquals arguments) := by
  unfold Action.objectEquals
  split
  · rename_i a b
    refine (agree_valuesEqual hs (harguments a (by simp)) (harguments b (by simp))).bind
      fun s₁ equal _ hs₁ _ => agree_pure hs₁ fun v hv => ?_
    obtain rfl := Option.some.inj hv
    trivial
  · exact agree_fault hs rfl rfl

/-! ## The event of an object -/

theorem agree_receiver {method : String} {this : Option Value}
    (hthis : ∀ v, this = some v → (U.scope s).Value v) :
    U.Agree s (fun u r => (U.scope u).ref r) (Action.receiver method this)
      (Action.receiver method this) := by
  unfold Action.receiver
  split
  · rename_i r hr
    obtain ⟨v, rfl, hv⟩ := Option.bind_eq_some_iff.mp hr
    cases v with
    | ref q =>
      obtain rfl := Option.some.inj hv
      exact agree_pure hs (hthis _ rfl)
    | void | int | null | struct | address | function => cases hv
  · exact agree_fault hs rfl rfl

theorem agree_eventField? {r : HeapRef} (hr : (U.scope s).ref r) :
    U.Agree s (fun _ _ => True) (Action.eventField? m r) (Action.eventField? m r) :=
  (agree_runtimeType hs hr).bind fun _ _ _ hs₁ _ => agree_pure hs₁ trivial

theorem agree_invocations {v : Value} (hv : (U.scope s).Value v) :
    U.Agree s (fun u list => ∀ i ∈ list, (U.scope u).Invocation i) (Action.invocations v)
      (Action.invocations v) := by
  unfold Action.invocations
  split
  · exact agree_pure hs fun i hi => by cases hi
  · refine (agree_heap_get hs hv).bind fun s₁ o _ hs₁ ho => ?_
    split
    · exact agree_pure hs₁ ho
    · exact agree_fault hs₁ rfl rfl
  · exact agree_fault hs rfl rfl

theorem agree_fieldOrNull {r : HeapRef} (hr : (U.scope s).ref r) (f : Token) :
    U.Agree s (fun u v => (U.scope u).Value v) (Action.fieldOrNull r f) (Action.fieldOrNull r f) := by
  refine (agree_heap_getField hs hr f).bind fun s₁ stored _ hs₁ hstored => agree_pure hs₁ ?_
  cases stored with
  | none => trivial
  | some v => exact hstored v rfl

theorem agree_storeHandlers {source like : HeapRef} (hsource : (U.scope s).ref source)
    (hlike : (U.scope s).ref like) (field : Field) {list : List Invocation}
    (hlist : ∀ i ∈ list, (U.scope s).Invocation i) :
    U.Agree s (fun _ _ => True) (Action.storeHandlers source field like list)
      (Action.storeHandlers source field like list) := by
  unfold Action.storeHandlers
  split
  · exact agree_setField hs hsource _ trivial
  · refine (agree_heap_typeOf hs hlike).bind fun s₁ type hle₁ hs₁ _ => ?_
    split
    · rename_i type
      refine (agree_alloc hs₁ (o := .delegate type list) (invocations_later hle₁ hlist)).bind
        fun s₂ r hle₂ hs₂ hr => ?_
      exact agree_setField hs₂ ((U.grow (U.trans hle₁ hle₂)).ref _ hsource) _ (v := .ref r) hr
    · exact agree_fault hs₁ rfl rfl

theorem agree_handlerArguments {method : String} {this : Option Value} {arguments : List Value}
    (hthis : ∀ v, this = some v → (U.scope s).Value v)
    (harguments : ∀ v ∈ arguments, (U.scope s).Value v) :
    U.Agree s (fun u x => ∀ a, x = some a → (U.scope u).ref a.1 ∧ (U.scope u).ref a.2.2)
      (Action.handlerArguments m method this arguments)
      (Action.handlerArguments m method this arguments) := by
  refine (agree_receiver hs hthis).bind fun s₁ source hle₁ hs₁ hsource => ?_
  split
  · exact agree_pure hs₁ nofun
  · rename_i handler hhandler
    have hknown : (U.scope s₁).ref handler := by
      obtain ⟨v, hv, hr⟩ := Option.bind_eq_some_iff.mp hhandler
      have hvalue := values_later hle₁ harguments v (List.mem_of_mem_head? hv)
      cases v with
      | ref q =>
        obtain rfl := Option.some.inj hr
        exact hvalue
      | void | int | null | struct | address | function => cases hr
    refine (agree_eventField? hs₁ hsource).bind fun s₂ field hle₂ hs₂ _ => ?_
    cases field with
    | none => exact agree_fault hs₂ rfl rfl
    | some field =>
      refine agree_pure hs₂ fun a ha => ?_
      obtain rfl := Option.some.inj ha
      exact ⟨(U.grow hle₂).ref _ hsource, (U.grow hle₂).ref _ hknown⟩

omit hs in
theorem ref_of_firstTarget {S : Scope} {list : List Invocation} (h : ∀ i ∈ list, S.Invocation i)
    {r : HeapRef} (hr : Action.firstTarget list = some r) : S.ref r := by
  obtain ⟨i, hi, htarget⟩ := Option.bind_eq_some_iff.mp hr
  exact (h i (List.mem_of_mem_head? hi)).target r htarget

section Handlers

variable {method : String} {this : Option Value} {arguments : List Value}
  (hthis : ∀ v, this = some v → (U.scope s).Value v)
  (harguments : ∀ v ∈ arguments, (U.scope s).Value v)
include hthis harguments

theorem agree_addHandler :
    U.Agree s (fun u x => ∀ v, x = some v → (U.scope u).Value v)
      (Action.addHandler m method this arguments) (Action.addHandler m method this arguments) := by
  refine (agree_handlerArguments hs hthis harguments).bind fun s₁ x _ hs₁ hx => ?_
  split
  · exact agree_pure hs₁ nofun
  · rename_i source field handler
    obtain ⟨hsource, hhandler⟩ := hx _ rfl
    refine (agree_invocations hs₁ (v := .ref handler) hhandler).bind fun s₂ added hle₂ hs₂ hadded => ?_
    refine (agree_fieldOrNull hs₂ ((U.grow hle₂).ref _ hsource) _).bind fun s₃ v hle₃ hs₃ hv => ?_
    refine (agree_invocations hs₃ hv).bind fun s₄ present hle₄ hs₄ hpresent => ?_
    have hle := U.trans (U.trans hle₂ hle₃) hle₄
    have hadded₄ := invocations_later (U.trans hle₃ hle₄) hadded
    refine (agree_storeHandlers hs₄ ((U.grow hle).ref _ hsource) ((U.grow hle).ref _ hhandler) field
      fun i hi => (List.mem_append.mp hi).elim (hpresent i) (hadded₄ i)).bind fun s₅ _ hle₅ hs₅ _ => ?_
    have htold : (U.scope s₅).Event (.subscribed source (Action.firstTarget added)) :=
      ⟨(U.grow (U.trans hle hle₅)).ref _ hsource,
        fun q hq => ref_of_firstTarget (invocations_later hle₅ hadded₄) hq⟩
    exact (agree_record hs₅ htold).bind fun s₆ _ _ hs₆ _ => agree_pure hs₆ nofun

theorem agree_removeHandler :
    U.Agree s (fun u x => ∀ v, x = some v → (U.scope u).Value v)
      (Action.removeHandler m method this arguments)
      (Action.removeHandler m method this arguments) := by
  refine (agree_handlerArguments hs hthis harguments).bind fun s₁ x _ hs₁ hx => ?_
  split
  · exact agree_pure hs₁ nofun
  · rename_i source field handler
    obtain ⟨hsource, hhandler⟩ := hx _ rfl
    refine (agree_invocations hs₁ (v := .ref handler) hhandler).bind
      fun s₂ removed hle₂ hs₂ hremoved => ?_
    refine (agree_fieldOrNull hs₂ ((U.grow hle₂).ref _ hsource) _).bind fun s₃ v hle₃ hs₃ hv => ?_
    refine (agree_invocations hs₃ hv).bind fun s₄ present hle₄ hs₄ hpresent => ?_
    have hle := U.trans (U.trans hle₂ hle₃) hle₄
    have hremoved₄ := invocations_later (U.trans hle₃ hle₄) hremoved
    have htell : ∀ {s₅}, U.le s₄ s₅ → U.inv s₅ →
        U.Agree s₅ (fun u x => ∀ v, x = some v → (U.scope u).Value v)
          (do Action.record (.unsubscribed source (Action.firstTarget removed)); return none)
          (do Action.record (.unsubscribed source (Action.firstTarget removed)); return none) := by
      intro s₅ hle₅ hs₅
      have htold : (U.scope s₅).Event (.unsubscribed source (Action.firstTarget removed)) :=
        ⟨(U.grow (U.trans hle hle₅)).ref _ hsource,
          fun q hq => ref_of_firstTarget (invocations_later hle₅ hremoved₄) hq⟩
      exact (agree_record hs₅ htold).bind fun s₆ _ _ hs₆ _ => agree_pure hs₆ nofun
    dsimp only
    split
    · rename_i kept hkept
      exact (agree_storeHandlers hs₄ ((U.grow hle).ref _ hsource) ((U.grow hle).ref _ hhandler) field
        fun i hi => hpresent i (mem_of_withoutLast hkept hi)).bind fun s₅ _ hle₅ hs₅ _ => htell hle₅ hs₅
    · exact htell (U.refl s₄) hs₄

end Handlers

/-! ## Raising the event -/

theorem agree_stringValue {v : Value} (hv : (U.scope s).Value v) :
    U.Agree s (fun _ _ => True) (Action.stringValue v) (Action.stringValue v) := by
  unfold Action.stringValue
  split
  · exact agree_pure hs trivial
  · exact (agree_heap_getString hs hv).bind fun _ _ _ hs₁ _ => agree_pure hs₁ trivial
  · exact agree_fault hs rfl rfl

theorem agree_propertyName {v : Value} (hv : (U.scope s).Value v) :
    U.Agree s (fun _ _ => True) (Action.propertyName m v) (Action.propertyName m v) := by
  unfold Action.propertyName
  split
  · rename_i r
    refine (agree_heap_get hs hv).bind fun s₁ o hle₁ hs₁ _ => ?_
    split
    · exact agree_pure hs₁ trivial
    · have hr := (U.grow hle₁).ref r hv
      unfold Action.nameInArguments
      have hrequire : U.Agree s₁ (fun _ _ => True)
          (Action.nameInArguments.liftExcept (m.require Surface.eventArgs))
          (Action.nameInArguments.liftExcept (m.require Surface.eventArgs)) := by
        refine ⟨rfl, ?_⟩
        show U.Outcome s₁ _ (m.require Surface.eventArgs, s₁)
        unfold Module.require
        split
        · exact ⟨U.refl s₁, hs₁, trivial⟩
        · exact U.fails hs₁ rfl rfl
      refine hrequire.bind fun s₂ t hle₂ hs₂ _ => ?_
      split
      · exact agree_throw hs₂ rfl rfl
      · refine (agree_fieldOrNull hs₂ ((U.grow hle₂).ref r hr) _).bind fun s₃ v _ hs₃ hv => ?_
        exact (agree_stringValue hs₃ hv).bind fun _ _ _ hs₄ _ => agree_pure hs₄ trivial
  · exact agree_fault hs rfl rfl

theorem agree_announcement {arguments : List Value}
    (harguments : ∀ v ∈ arguments, (U.scope s).Value v) :
    U.Agree s (fun u x => (∀ v, x.2.1 = some v → (U.scope u).Value v)
        ∧ ∀ v, x.2.2 = some v → (U.scope u).Value v)
      (Action.announcement m arguments) (Action.announcement m arguments) := by
  unfold Action.announcement
  split
  · rename_i a
    exact (agree_propertyName hs (harguments a (by simp))).bind fun _ _ _ hs₁ _ =>
      agree_pure hs₁ ⟨nofun, nofun⟩
  · rename_i b a
    exact (agree_propertyName hs (harguments a (by simp))).bind fun _ _ _ hs₁ _ =>
      agree_pure hs₁ ⟨nofun, nofun⟩
  · rename_i a before after
    refine (agree_propertyName hs (harguments a (by simp))).bind fun s₁ _ hle₁ hs₁ _ =>
      agree_pure hs₁ ⟨fun v hv => ?_, fun v hv => ?_⟩
    · obtain rfl := Option.some.inj hv
      exact (U.grow hle₁).value (harguments before (by simp))
    · obtain rfl := Option.some.inj hv
      exact (U.grow hle₁).value (harguments after (by simp))
  · exact agree_fault hs rfl rfl

end Objects

/-- The method is a constructor. -/
def IsConstructor (m : Module) (i : MethodId) : Prop :=
  ∃ d, m.method? i = some d ∧ d.name = Surface.constructor

/-- From a state on, making event arguments agrees, and behind it the calls of handlers do. -/
def Prepares (U : Upkeep m) (s : Machine) (call call' : Call) : Prop :=
  ∀ ⦃t i v⦄, U.le s t → U.inv t → IsConstructor m i → (U.scope t).Value v →
    U.Agree t (fun u x => (U.scope u).Value x ∧ U.CallsTo U.Handles u call call')
      (Action.construct m call i [v]) (Action.construct m call' i [v])

theorem Prepares.later (h : U.Prepares s call call') (hle : U.le s t) : U.Prepares t call call' :=
  fun _ _ _ hle' => h (U.trans hle hle')

theorem Calls.prepares (hcalls : U.Calls s call call') : U.Prepares s call call' := by
  intro t i v hle ht _ hv
  refine (agree_construct ht (hcalls.later hle).to fun x hx => ?_).mono
    fun u x hle' _ hx => ⟨hx, (hcalls.later (U.trans hle hle')).to⟩
  obtain rfl := List.mem_singleton.mp hx
  exact hv

theorem agree_eventArgsConstructor (hs : U.inv s) :
    U.Agree s (fun _ i => IsConstructor m i) (Action.raiseEvent.eventArgsConstructor m)
      (Action.raiseEvent.eventArgsConstructor m) := by
  refine ⟨rfl, ?_⟩
  show U.Outcome s _ (Action.raiseEvent.eventArgsConstructor m s)
  unfold Action.raiseEvent.eventArgsConstructor Module.require
  cases m.find? Surface.eventArgs with
  | none => exact U.fails hs rfl rfl
  | some t =>
    dsimp only
    cases hfound : (m.type? t).bind (m.methodNamed? · Surface.constructor) with
    | none => exact U.fails hs rfl rfl
    | some i =>
      refine ⟨U.refl s, hs, ?_⟩
      obtain ⟨type, -, hi⟩ := Option.bind_eq_some_iff.mp hfound
      unfold Module.methodNamed? at hi
      have hnamed := List.find?_some hi
      obtain ⟨d, hd, hname⟩ := (Option.any_eq_true _ _).mp hnamed
      exact ⟨d, hd, by simpa using hname⟩

variable (hs : U.inv s)
include hs

theorem agree_raiseEvent (hprepares : U.Prepares s call call') {r : HeapRef}
    (hr : (U.scope s).ref r) (property : String) :
    U.Agree s (fun _ _ => True) (Action.raiseEvent m call r property)
      (Action.raiseEvent m call' r property) := by
  refine (agree_eventField? hs hr).bind fun s₁ field hle₁ hs₁ _ => ?_
  cases field with
  | none => exact agree_pure hs₁ trivial
  | some field =>
    refine (agree_heap_getField hs₁ ((U.grow hle₁).ref r hr) _).bind fun s₂ stored hle₂ hs₂ hstored => ?_
    have hle := U.trans hle₁ hle₂
    split
    · rename_i handlers
      have hhandlers : (U.scope s₂).ref handlers := hstored _ rfl
      refine (agree_eventArgsConstructor hs₂).bind fun s₃ i hle₃ hs₃ hi => ?_
      refine (agree_allocString hs₃ property).bind fun s₄ name hle₄ hs₄ hname => ?_
      have hle₅ := U.trans (U.trans hle hle₃) hle₄
      refine (hprepares hle₅ hs₄ hi hname).bind fun s₅ arguments hle₆ hs₅ harguments => ?_
      have hgrow := U.grow (U.trans (U.trans hle₃ hle₄) hle₆)
      refine agree_invokeDelegate hs₅ harguments.2 (hgrow.ref _ hhandlers) fun v hv => ?_
      rcases List.mem_pair.mp hv with rfl | rfl
      · exact (U.grow (U.trans hle₅ hle₆)).ref r hr
      · exact harguments.1
    · exact agree_pure hs₂ trivial

variable {method : String} {this : Option Value} {arguments : List Value}
  (hthis : ∀ v, this = some v → (U.scope s).Value v)
  (harguments : ∀ v ∈ arguments, (U.scope s).Value v)
include hthis harguments

theorem agree_raise (hprepares : U.Prepares s call call') :
    U.Agree s (fun u x => ∀ v, x = some v → (U.scope u).Value v)
      (Action.raise m call method this arguments) (Action.raise m call' method this arguments) := by
  refine (agree_receiver hs hthis).bind fun s₁ r hle₁ hs₁ hr => ?_
  refine (agree_announcement hs₁ (values_later hle₁ harguments)).bind fun s₂ x hle₂ hs₂ hx => ?_
  obtain ⟨property, before, after⟩ := x
  have hr₂ := (U.grow hle₂).ref r hr
  refine (agree_record hs₂ (e := .notified r property before after) ⟨hr₂, hx⟩).bind
    fun s₃ _ hle₃ hs₃ _ => ?_
  refine (agree_raiseEvent hs₃ (hprepares.later (U.trans (U.trans hle₁ hle₂) hle₃))
    ((U.grow hle₃).ref r hr₂) property).bind fun s₄ _ _ hs₄ _ => ?_
  exact agree_pure hs₄ nofun

theorem agree_answerFor {member : RuntimeMember}
    (hprepares : member = .raise → U.Prepares s call call') :
    U.Agree s (fun u x => ∀ v, x = some v → (U.scope u).Value v)
      (Action.answerFor m call member method this arguments)
      (Action.answerFor m call' member method this arguments) := by
  cases member with
  | objectEquals => exact agree_objectEquals hs harguments
  | addHandler => exact agree_addHandler hs hthis harguments
  | removeHandler => exact agree_removeHandler hs hthis harguments
  | raise => exact agree_raise hs hthis harguments (hprepares rfl)

end Upkeep

end SetterLoom
