import SetterLoom.Proofs.Machine.Likeness

/-!
# Objects and members of the runtime, alike

Making objects, calling delegates, and what the machine answers for the members of the runtime: all of
it is alike if the calls made on the way are. Handlers are compared when one is removed, so a likeness
must not take two objects for one.

* `like_construct`, `like_invokeDelegate`, `like_dispatch`: objects at work.
* `like_answerFor`: the members of the runtime.
-/

namespace SetterLoom.Likeness
set_option autoImplicit false

variable {m m' : Module} {L : Likeness m m'} {w : L.World}

/-! ## Growing worlds -/

theorem values_mono {w' : L.World} {v v' : Value} (hle : L.le w w') (h : L.Values w v v') :
    L.Values w' v v' :=
  h.grow (L.refs_mono hle)

theorem optional_mono {w' : L.World} {v v' : Option Value} (hle : L.le w w')
    (h : Option.Rel (L.Values w) v v') : Option.Rel (L.Values w') v v' :=
  Worlds.rel_mono (fun _ _ => values_mono hle) h

theorem list_mono {w' : L.World} {vs vs' : List Value} (hle : L.le w w')
    (h : List.Forall₂ (L.Values w) vs vs') : List.Forall₂ (L.Values w') vs vs' :=
  h.imp fun _ _ => values_mono hle

theorem invocations_mono {w' : L.World} {l l' : List Invocation} (hle : L.le w w')
    (h : List.Forall₂ (L.Invocations w) l l') : List.Forall₂ (L.Invocations w') l l' :=
  h.imp fun _ _ => Worlds.Invocations.grow (L.refs_mono hle)

/-! ## Comparing -/

section State

variable {s s' : Machine} (hs : L.state w s s')
include hs

theorem values_eq_iff {a a' b b' : Value} (ha : L.Values w a a') (hb : L.Values w b b') :
    a = b ↔ a' = b' := by
  cases ha with
  | void | int | null | struct | function => cases hb <;> simp
  | ref h =>
    cases hb with
    | ref h' => simp only [Value.ref.injEq, L.refs_eq_iff hs h h']
    | void | int | null | struct | address | function => simp
  | address h hf =>
    cases hb with
    | address h' hf' => simp only [Value.address.injEq, L.refs_eq_iff hs h h']
    | void | int | null | struct | ref | function => simp

theorem invocations_eq_iff {i i' j j' : Invocation} (hi : L.Invocations w i i')
    (hj : L.Invocations w j j') : i = j ↔ i' = j' := by
  obtain ⟨ti, mi⟩ := i
  obtain ⟨tj, mj⟩ := j
  obtain ⟨ti', mi'⟩ := i'
  obtain ⟨tj', mj'⟩ := j'
  have htarget : ti = tj ↔ ti' = tj' := by
    have hti : Option.Rel (L.refs w) ti ti' := hi.target
    have htj : Option.Rel (L.refs w) tj tj' := hj.target
    cases hti with
    | none => cases htj <;> simp
    | some h =>
      cases htj with
      | none => simp
      | some h' => simp only [Option.some.injEq, L.refs_eq_iff hs h h']
  have hmi : mi' = mi := hi.method
  have hmj : mj' = mj := hj.method
  rw [Invocation.mk.injEq, Invocation.mk.injEq, htarget, hmi, hmj]

theorem isPrefixOf_eq {part part' list list' : List Invocation}
    (hpart : List.Forall₂ (L.Invocations w) part part')
    (hlist : List.Forall₂ (L.Invocations w) list list') :
    part'.isPrefixOf list' = part.isPrefixOf list := by
  induction hpart generalizing list list' with
  | nil => cases hlist <;> rfl
  | cons hi hrest ih =>
    cases hlist with
    | nil => rfl
    | cons hj hrest' =>
      rw [List.isPrefixOf, List.isPrefixOf, ih hrest']
      congr 1
      rw [Bool.eq_iff_iff, beq_iff_eq, beq_iff_eq]
      exact (invocations_eq_iff hs hi hj).symm

theorem withoutLast_rel {part part' list list' : List Invocation}
    (hpart : List.Forall₂ (L.Invocations w) part part')
    (hlist : List.Forall₂ (L.Invocations w) list list') :
    Option.Rel (List.Forall₂ (L.Invocations w)) (withoutLast part list)
      (withoutLast part' list') := by
  induction hlist with
  | nil => exact .none
  | @cons i i' rest rest' hi hrest ih =>
    have hempty : part'.isEmpty = part.isEmpty := by cases hpart <;> rfl
    have hprefix := isPrefixOf_eq hs hpart (.cons hi hrest)
    rw [withoutLast, withoutLast]
    cases hw : withoutLast part rest with
    | some kept =>
      rw [hw] at ih
      cases hw' : withoutLast part' rest' with
      | none => rw [hw'] at ih; cases ih
      | some kept' =>
        rw [hw'] at ih
        cases ih with
        | some h => exact .some (.cons hi h)
    | none =>
      rw [hw] at ih
      -- equal lists are told from unequal ones in both states alike, so
      -- the part is found at the same place
      cases hw' : withoutLast part' rest' with
      | some kept' => rw [hw'] at ih; cases ih
      | none =>
        simp only [hempty, hprefix]
        split
        · refine .some ?_
          rw [hpart.length_eq]
          exact List.forall₂_drop part'.length (.cons hi hrest)
        · exact .none

end State

theorem Like.of_state {α β : Type} {results : L.World → α → β → Prop} {a : Action α}
    {a' : Action β} (h : ∀ s s', L.state w s s' → L.Like w results a a') :
    L.Like w results a a' :=
  fun s s' _ _ hs => h s s' hs hs

theorem like_valuesEqual {a a' b b' : Value} (ha : L.Values w a a') (hb : L.Values w b b') :
    L.Like w (fun _ x x' => x' = x) (Action.valuesEqual a b) (Action.valuesEqual a' b') := by
  refine .of_state fun s s' hs => ?_
  have heq : (a' == b') = (a == b) := by
    rw [Bool.eq_iff_iff, beq_iff_eq, beq_iff_eq]
    exact (values_eq_iff hs ha hb).symm
  cases ha with
  | void | int | null | struct | address | function => cases hb <;> exact .pure heq
  | @ref p p' hp =>
    cases hb with
    | void | int | null | struct | address | function => exact .pure heq
    | @ref q q' hq =>
      -- only two different references are looked up, and then boxes are told by their values
      by_cases hpq : p = q
      · have hpq' : p' = q' := (L.refs_eq_iff hs hp hq).mp hpq
        simp only [Action.valuesEqual, if_pos hpq, if_pos hpq']
        exact .pure rfl
      · have hpq' : p' ≠ q' := fun h => hpq ((L.refs_eq_iff hs hp hq).mpr h)
        simp only [Action.valuesEqual, if_neg hpq, if_neg hpq']
        refine (like_heap_get hp).bind fun w₁ o o' hle₁ ho => ?_
        refine (like_heap_get (L.refs_mono hle₁ hq)).bind fun w₂ o₂ o₂' hle₂ ho₂ => ?_
        refine .of_state fun s₂ s₂' hs₂ => ?_
        cases ho with
        | object | delegate => cases ho₂ <;> exact .pure rfl
        | string => cases ho₂ <;> exact .pure rfl
        | boxed t hv =>
          cases ho₂ with
          | object | delegate | string => exact .pure rfl
          | boxed u hv₂ =>
            refine .pure ?_
            congr 1
            rw [Bool.eq_iff_iff, beq_iff_eq, beq_iff_eq]
            exact (values_eq_iff hs₂ (values_mono hle₂ hv) hv₂).symm

theorem like_objectEquals {args args' : List Value} (h : List.Forall₂ (L.Values w) args args') :
    L.Like w (fun w => Option.Rel (L.Values w)) (Action.objectEquals args)
      (Action.objectEquals args') := by
  cases h with
  | nil => exact .fault
  | cons ha h =>
    cases h with
    | nil => exact .fault
    | cons hb h =>
      cases h with
      | nil =>
        refine (like_valuesEqual ha hb).bind fun w₁ x x' _ hx => .pure ?_
        rw [hx]
        exact .some (.int _)
      | cons => exact .fault

/-! ## Objects at work -/

/-- Calls are alike for methods that may be called. -/
def Calls (L : Likeness m m') (call call' : Call) : Prop :=
  ∀ ⦃w i this this' args args'⦄, L.callable i → Option.Rel (L.Values w) this this' →
    List.Forall₂ (L.Values w) args args' →
      L.Like w (fun w => L.Values w) (call i this args) (call' i this' args')

variable {call call' : Call}

theorem like_constructedType (i : MethodId) :
    L.Like w (fun _ x x' => x' = x) (Action.constructedType m i) (Action.constructedType m' i) := by
  unfold Action.constructedType
  cases hd : m.method? i with
  | none => exact .fault
  | some d =>
    obtain ⟨d', hd', hsignature⟩ := L.modules.method? hd
    have hsame : (d'.owner.bind fun t => (m'.type? t).map (t, ·))
        = d.owner.bind fun t => (m.type? t).map (t, ·) := by
      rw [Module.Alike.owner_eq hsignature]
      congr 1
      funext t
      rw [L.modules.type?]
    simp only [hd', Option.bind_some, hsame]
    cases d.owner.bind fun t => (m.type? t).map (t, ·) with
    | none => exact .fault
    | some owner => exact .pure rfl

theorem like_makeDelegate (type : TypeDef) {args args' : List Value}
    (h : List.Forall₂ (L.Values w) args args') :
    L.Like w (fun w => L.Values w) (Action.makeDelegate type args)
      (Action.makeDelegate type args') := by
  have hone : ∀ {v v' : Value} {t : Token}, L.Values w v v' → L.pointable t →
      L.Like w (fun w => L.Values w)
        (.ref <$> Action.alloc (.delegate type.token [⟨v.ref?, t⟩]))
        (.ref <$> Action.alloc (.delegate type.token [⟨v'.ref?, t⟩])) := by
    intro v v' t hv ht
    have htarget : Option.Rel (L.refs w) v.ref? v'.ref? := by
      cases hv with
      | ref h => exact .some h
      | void | int | null | struct | address | function => exact .none
    have hlist : List.Forall₂ (L.Invocations w) [⟨v.ref?, t⟩] [⟨v'.ref?, t⟩] :=
      .cons ⟨htarget, rfl, ht⟩ .nil
    exact (like_alloc (.delegate type.token hlist) nofun nofun).map fun _ _ _ _ hr => .ref hr
  unfold Action.makeDelegate
  cases h with
  | nil => exact .fault
  | cons ha h =>
    cases h with
    | nil => exact .fault
    | cons hb h =>
      cases h with
      | cons => cases hb <;> exact .fault
      | nil =>
        cases hb with
        | function ht => exact hone ha ht
        | void | int | null | struct | address | ref => exact .fault

theorem like_construct (hcall : L.Calls call call') {i : MethodId} (hi : L.callable i)
    {args args' : List Value} (h : List.Forall₂ (L.Values w) args args') :
    L.Like w (fun w => L.Values w) (Action.construct m call i args)
      (Action.construct m' call' i args') := by
  refine (like_constructedType i).bind fun w₁ owner owner' hle₁ howner => ?_
  subst howner
  have h₁ := list_mono hle₁ h
  simp only [L.modules.isDelegate]
  split
  · exact like_makeDelegate owner'.2 h₁
  · refine (like_allocObject owner'.2.token).bind fun w₂ o o' hle₂ ho => ?_
    refine (hcall hi (.some ho) (list_mono hle₂ h₁)).bind fun w₃ _ _ hle₃ _ => ?_
    exact .pure (values_mono hle₃ ho)

theorem like_invokeEach (hcall : L.Calls call call') {args args' : List Value}
    {list list' : List Invocation} (h : List.Forall₂ (L.Values w) args args')
    (hlist : List.Forall₂ (L.Invocations w) list list') :
    L.Like w (fun _ _ _ => True) (Action.invokeEach call args list)
      (Action.invokeEach call' args' list') := by
  induction list generalizing w list' with
  | nil =>
    cases hlist
    exact .pure trivial
  | cons invocation rest ih =>
    cases hlist with
    | @cons _ invocation' _ rest' hi hrest =>
      unfold Action.invokeEach
      rw [hi.method]
      refine (like_known hi.pointable).bind fun w₁ i i' hle₁ hcallable => ?_
      obtain ⟨rfl, hcallable⟩ := hcallable
      have htarget : Option.Rel (L.Values w₁) (invocation.target.map .ref)
          (invocation'.target.map .ref) := by
        obtain ⟨target, method⟩ := invocation
        obtain ⟨target', method'⟩ := invocation'
        have hrel : Option.Rel (L.refs w) target target' := hi.target
        cases hrel with
        | none => exact .none
        | some hr => exact .some (.ref (L.refs_mono hle₁ hr))
      refine (hcall hcallable htarget (list_mono hle₁ h)).bind fun w₂ _ _ hle₂ _ => ?_
      have hle := L.le_trans hle₁ hle₂
      exact ih (list_mono hle h) (invocations_mono hle hrest)

theorem like_invokeDelegate (hcall : L.Calls call call') {r r' : HeapRef}
    {args args' : List Value} (hr : L.refs w r r') (h : List.Forall₂ (L.Values w) args args') :
    L.Like w (fun _ _ _ => True) (Action.invokeDelegate call r args)
      (Action.invokeDelegate call' r' args') := by
  refine (like_heap_get hr).bind fun w₁ o o' hle₁ ho => ?_
  cases ho with
  | delegate t hlist => exact like_invokeEach hcall (list_mono hle₁ h) hlist
  | string | object | boxed => exact .fault

theorem like_runtimeType {r r' : HeapRef} (hr : L.refs w r r') :
    L.Like w (fun _ x x' => x' = x) (Action.runtimeType m r) (Action.runtimeType m' r') := by
  refine (like_heap_typeOf hr).bind fun w₁ x x' _ hx => .pure ?_
  rw [hx, L.modules.registry]

theorem name_of_methodInLine? {t : TypeId} {name : String} {j : MethodId}
    (h : m.methodInLine? t name = some j) : ∃ d, m.method? j = some d ∧ d.name = name := by
  obtain ⟨e, -, he⟩ := List.exists_of_findSome?_eq_some h
  have hname := List.find?_some he
  obtain ⟨d, hd, hd'⟩ := Option.any_eq_true _ _ |>.mp hname
  exact ⟨d, hd, by simpa using hd'⟩

theorem like_dispatch {r r' : HeapRef} (hr : L.refs w r r') {i : MethodId} {d d' : Method}
    (hi : L.callable i) (hd : m.method? i = some d) (hsignature : d'.signature = d.signature) :
    L.Like w (fun _ j j' => j' = j ∧ L.callable j) (Action.dispatch m r i d)
      (Action.dispatch m' r' i d') := by
  refine (like_runtimeType hr).bind fun w₁ type type' _ htype => ?_
  subst htype
  cases type' with
  | none => exact .pure ⟨rfl, hi⟩
  | some t =>
    refine .pure ⟨?_, ?_⟩
    · have hname := Module.Alike.name_eq hsignature
      have hparams := Module.Alike.params_eq hsignature
      simp only [L.modules.methodInLine?, hname, hparams]
      congr 1
      congr 1
      funext j
      exact L.modules.any j fun _ => rfl
    · cases hfound : (m.methodInLine? t d.name).filter fun j =>
          (m.method? j).any fun c => c.params.length == d.params.length && !c.isStatic with
      | none => exact hi
      | some j =>
        obtain ⟨hj, -⟩ := Option.filter_eq_some_iff.mp hfound
        obtain ⟨dj, hdj, hname⟩ := name_of_methodInLine? hj
        exact L.dispatched hi hd hdj hname

/-! ## The event of an object -/

theorem like_receiver {method : String} {this this' : Option Value}
    (h : Option.Rel (L.Values w) this this') :
    L.Like w (fun w => L.refs w) (Action.receiver method this)
      (Action.receiver method this') := by
  cases h with
  | none => exact .fault
  | some hv =>
    cases hv with
    | ref hr => exact .pure hr
    | void | int | null | struct | address | function => exact .fault

theorem like_eventField? {r r' : HeapRef} (hr : L.refs w r r') :
    L.Like w (fun _ x x' => x' = x ∧ ∀ f, x = some f →
        ∃ t, m.fieldInLine? t Surface.changedEvent = some f)
      (Action.eventField? m r) (Action.eventField? m' r') := by
  refine (like_runtimeType hr).bind fun w₁ type type' _ htype => .pure ⟨?_, ?_⟩
  · rw [htype]
    congr 1
    funext t
    exact L.modules.fieldInLine? t _
  · intro f hf
    obtain ⟨t, -, ht⟩ := Option.bind_eq_some_iff.mp hf
    exact ⟨t, ht⟩

theorem like_invocations {v v' : Value} (h : L.Values w v v') :
    L.Like w (fun w => List.Forall₂ (L.Invocations w)) (Action.invocations v)
      (Action.invocations v') := by
  cases h with
  | null => exact .pure .nil
  | ref hr =>
    refine (like_heap_get hr).bind fun w₁ o o' _ ho => ?_
    cases ho with
    | delegate t hlist => exact .pure hlist
    | string | object | boxed => exact .fault
  | void | int | struct | address | function => exact .fault

theorem like_fieldOrNull {r r' : HeapRef} {f : Token} (hr : L.refs w r r') :
    L.Like w (fun w => L.Values w) (Action.fieldOrNull r f) (Action.fieldOrNull r' f) := by
  refine (like_heap_getField hr).bind fun w₁ x x' _ hx => .pure ?_
  cases hx with
  | none => exact .null
  | some hv => exact hv

theorem like_storeHandlers {source source' like like' : HeapRef} {field : Field}
    {list list' : List Invocation} (hsource : L.refs w source source')
    (hlike : L.refs w like like') (hfield : L.storable field.token)
    (hlist : List.Forall₂ (L.Invocations w) list list') :
    L.Like w (fun _ _ _ => True) (Action.storeHandlers source field like list)
      (Action.storeHandlers source' field like' list') := by
  unfold Action.storeHandlers
  cases hlist with
  | nil => exact like_setField hsource hfield .null
  | cons hi hrest =>
    refine (like_heap_typeOf hlike).bind fun w₁ type type' hle₁ htype => ?_
    subst htype
    cases type' with
    | none => exact .fault
    | some t =>
      have hwhole := invocations_mono hle₁ (.cons hi hrest)
      refine (like_alloc (.delegate t hwhole) nofun nofun).bind fun w₂ r r' hle₂ hr => ?_
      exact like_setField (L.refs_mono (L.le_trans hle₁ hle₂) hsource) hfield (.ref hr)

/-- The object, the field and the handler that a member is called with are alike. -/
def HandlerArguments (L : Likeness m m') (w : L.World)
    (x x' : Option (HeapRef × Field × HeapRef)) : Prop :=
  Option.Rel (fun a a' => L.refs w a.1 a'.1 ∧ a'.2.1 = a.2.1 ∧ L.refs w a.2.2 a'.2.2
    ∧ ∃ t, m.fieldInLine? t Surface.changedEvent = some a.2.1) x x'

theorem like_handlerArguments {method : String} {this this' : Option Value}
    {args args' : List Value} (hthis : Option.Rel (L.Values w) this this')
    (h : List.Forall₂ (L.Values w) args args') :
    L.Like w L.HandlerArguments (Action.handlerArguments m method this args)
      (Action.handlerArguments m' method this' args') := by
  refine (like_receiver hthis).bind fun w₁ source source' hle₁ hsource => ?_
  have hhandler : Option.Rel (L.refs w₁) (args.head?.bind (·.ref?)) (args'.head?.bind (·.ref?)) := by
    cases h with
    | nil => exact .none
    | cons hv _ =>
      cases hv with
      | ref hr => exact .some (L.refs_mono hle₁ hr)
      | void | int | null | struct | address | function => exact .none
  generalize args.head?.bind (·.ref?) = handler at hhandler
  generalize args'.head?.bind (·.ref?) = handler' at hhandler
  cases hhandler with
  | none => exact .pure .none
  | some hr =>
    refine (like_eventField? hsource).bind fun w₂ field field' hle₂ hfield => ?_
    obtain ⟨rfl, hknown⟩ := hfield
    cases field' with
    | none => exact .fault
    | some f =>
      exact .pure (.some ⟨L.refs_mono hle₂ hsource, rfl, L.refs_mono hle₂ hr, hknown f rfl⟩)

theorem firstTarget_rel {list list' : List Invocation}
    (h : List.Forall₂ (L.Invocations w) list list') :
    Option.Rel (L.refs w) (Action.firstTarget list) (Action.firstTarget list') := by
  cases h with
  | nil => exact .none
  | cons hi _ => exact hi.target

section Handlers

/-- Code is free to store into the fields behind the event. -/
def Subscribing (L : Likeness m m') : Prop :=
  ∀ t f, m.fieldInLine? t Surface.changedEvent = some f → L.storable f.token

variable (hfree : L.Subscribing) {method : String} {this this' : Option Value}
  {args args' : List Value} (hthis : Option.Rel (L.Values w) this this')
  (h : List.Forall₂ (L.Values w) args args')
include hfree hthis h

theorem like_addHandler :
    L.Like w (fun w => Option.Rel (L.Values w)) (Action.addHandler m method this args)
      (Action.addHandler m' method this' args') := by
  refine (like_handlerArguments hthis h).bind fun w₁ x x' _ hx => ?_
  cases hx with
  | none => exact .pure .none
  | @some a a' ha =>
    obtain ⟨source, field, handler⟩ := a
    obtain ⟨source', field', handler'⟩ := a'
    obtain ⟨hsource, hfield, hhandler, t, ht⟩ := ha
    obtain rfl : field' = field := hfield
    have hstorable := hfree t field' ht
    refine (like_invocations (.ref hhandler)).bind fun w₂ added added' hle₂ hadded => ?_
    refine (like_fieldOrNull (L.refs_mono hle₂ hsource)).bind fun w₃ v v' hle₃ hv => ?_
    refine (like_invocations hv).bind fun w₄ present present' hle₄ hpresent => ?_
    have hle := L.le_trans (L.le_trans hle₂ hle₃) hle₄
    have hadded₄ := invocations_mono (L.le_trans hle₃ hle₄) hadded
    refine (like_storeHandlers (L.refs_mono hle hsource) (L.refs_mono hle hhandler) hstorable
      (List.rel_append hpresent hadded₄)).bind fun w₅ _ _ hle₅ _ => ?_
    refine (like_record (.subscribed (L.refs_mono (L.le_trans hle hle₅) hsource)
      (firstTarget_rel (invocations_mono hle₅ hadded₄)))).bind fun w₆ _ _ _ _ => ?_
    exact .pure .none

theorem like_removeHandler :
    L.Like w (fun w => Option.Rel (L.Values w)) (Action.removeHandler m method this args)
      (Action.removeHandler m' method this' args') := by
  refine (like_handlerArguments hthis h).bind fun w₁ x x' _ hx => ?_
  cases hx with
  | none => exact .pure .none
  | @some a a' ha =>
    obtain ⟨source, field, handler⟩ := a
    obtain ⟨source', field', handler'⟩ := a'
    obtain ⟨hsource, hfield, hhandler, t, ht⟩ := ha
    obtain rfl : field' = field := hfield
    have hstorable := hfree t field' ht
    refine (like_invocations (.ref hhandler)).bind fun w₂ removed removed' hle₂ hremoved => ?_
    refine (like_fieldOrNull (L.refs_mono hle₂ hsource)).bind fun w₃ v v' hle₃ hv => ?_
    refine (like_invocations hv).bind fun w₄ present present' hle₄ hpresent => ?_
    have hle := L.le_trans (L.le_trans hle₂ hle₃) hle₄
    have hremoved₄ := invocations_mono (L.le_trans hle₃ hle₄) hremoved
    have hdone : ∀ {w₅}, L.le w₄ w₅ →
        L.Like w₅ (fun w => Option.Rel (L.Values w))
          (do Action.record (.unsubscribed source (Action.firstTarget removed)); return none)
          (do Action.record (.unsubscribed source' (Action.firstTarget removed')); return none) := by
      intro w₅ hle₅
      refine (like_record (.unsubscribed (L.refs_mono (L.le_trans hle hle₅) hsource)
        (firstTarget_rel (invocations_mono hle₅ hremoved₄)))).bind fun w₆ _ _ _ _ => ?_
      exact .pure .none
    refine .of_state fun s s' hs => ?_
    have hkept := withoutLast_rel hs hremoved₄ hpresent
    revert hkept
    cases withoutLast removed present with
    | none =>
      cases withoutLast removed' present' with
      | none => exact fun _ => hdone (L.le_refl w₄)
      | some kept' => exact fun h => nomatch h
    | some kept =>
      cases withoutLast removed' present' with
      | none => exact fun h => nomatch h
      | some kept' =>
        intro hkept
        have hlist : List.Forall₂ (L.Invocations w₄) kept kept' := by
          cases hkept with
          | some h => exact h
        exact (like_storeHandlers (L.refs_mono hle hsource) (L.refs_mono hle hhandler) hstorable
          hlist).bind fun w₅ _ _ hle₅ _ => hdone hle₅

end Handlers

/-! ## Raising the event -/

theorem like_stringValue {v v' : Value} (h : L.Values w v v') :
    L.Like w (fun _ x x' => x' = x) (Action.stringValue v) (Action.stringValue v') := by
  cases h with
  | null => exact .pure rfl
  | ref hr =>
    refine (like_heap_getString hr).bind fun w₁ x x' _ hx => .pure ?_
    rw [hx]
  | void | int | struct | address | function => exact .fault

theorem like_liftExcept {α : Type} {e e' : Except Error α} (h : e' = e) :
    L.Like w (fun _ x x' => x' = x) (Action.nameInArguments.liftExcept e)
      (Action.nameInArguments.liftExcept e') := by
  intro s s' x t hs ha
  obtain ⟨hx, rfl⟩ := Prod.mk.inj ha
  exact ⟨w, x, s', L.le_refl w, hs, Prod.ext (h.trans hx) rfl, rfl⟩

theorem like_nameInArguments {r r' : HeapRef} (hr : L.refs w r r') :
    L.Like w (fun _ x x' => x' = x) (Action.nameInArguments m r)
      (Action.nameInArguments m' r') := by
  refine (like_liftExcept (L.modules.require _)).bind fun w₁ t t' hle₁ ht => ?_
  subst ht
  simp only [L.modules.type?]
  cases (m.type? t').bind (·.field? Surface.nameField) with
  | none => exact .throw
  | some field =>
    refine (like_fieldOrNull (L.refs_mono hle₁ hr)).bind fun w₂ v v' _ hv => ?_
    refine (like_stringValue hv).bind fun w₃ x x' _ hx => .pure ?_
    rw [hx]

theorem like_propertyName {v v' : Value} (h : L.Values w v v') :
    L.Like w (fun _ x x' => x' = x) (Action.propertyName m v) (Action.propertyName m' v') := by
  cases h with
  | ref hr =>
    refine (like_heap_get hr).bind fun w₁ o o' hle₁ ho => ?_
    cases ho with
    | string s => exact .pure rfl
    | object | boxed | delegate => exact like_nameInArguments (L.refs_mono hle₁ hr)
  | void | int | null | struct | address | function => exact .fault

theorem like_eventArgsConstructor :
    L.Like w (fun _ i i' => i' = i ∧ L.callable i) (Action.raiseEvent.eventArgsConstructor m)
      (Action.raiseEvent.eventArgsConstructor m') := by
  intro s s' x t hs ha
  have hrun : Action.raiseEvent.eventArgsConstructor m s = (.ok x, t) := ha
  unfold Action.raiseEvent.eventArgsConstructor at hrun
  cases hrequire : m.require Surface.eventArgs with
  | error e =>
    rw [hrequire] at hrun
    cases (Prod.mk.inj hrun).1
  | ok type =>
    simp only [hrequire] at hrun
    cases hfound : (m.type? type).bind (m.methodNamed? · Surface.constructor) with
    | none =>
      rw [hfound] at hrun
      cases (Prod.mk.inj hrun).1
    | some i =>
      rw [hfound] at hrun
      obtain ⟨hx, rfl⟩ := Prod.mk.inj hrun
      cases hx
      obtain ⟨d, -, hd⟩ := Option.bind_eq_some_iff.mp hfound
      unfold Module.methodNamed? at hd
      have hname := List.find?_some hd
      obtain ⟨c, hc, hcname⟩ := (Option.any_eq_true _ _).mp hname
      have hfound' : (m'.type? type).bind (m'.methodNamed? · Surface.constructor) = some x := by
        simp only [L.modules.type?, L.modules.methodNamed?]
        exact hfound
      have hrun' : Action.raiseEvent.eventArgsConstructor m' s' = (.ok x, s') := by
        unfold Action.raiseEvent.eventArgsConstructor
        simp only [L.modules.require, hrequire, hfound']
      exact ⟨w, x, s', L.le_refl w, hs, hrun', rfl, L.constructors hc (by simpa using hcname)⟩

theorem like_raiseEvent (hcall : L.Calls call call') {r r' : HeapRef} (property : String)
    (hr : L.refs w r r') :
    L.Like w (fun _ _ _ => True) (Action.raiseEvent m call r property)
      (Action.raiseEvent m' call' r' property) := by
  refine (like_eventField? hr).bind fun w₁ field field' hle₁ hfield => ?_
  obtain ⟨rfl, -⟩ := hfield
  cases field' with
  | none => exact .pure trivial
  | some f =>
    refine (like_heap_getField (L.refs_mono hle₁ hr)).bind fun w₂ x x' hle₂ hx => ?_
    cases hx with
    | none => exact .pure trivial
    | some hv =>
      cases hv with
      | ref hhandlers =>
        refine like_eventArgsConstructor.bind fun w₃ i i' hle₃ hi => ?_
        obtain ⟨rfl, hcallable⟩ := hi
        refine (like_allocString property).bind fun w₄ name name' hle₄ hname => ?_
        refine (like_construct hcall hcallable (.cons hname .nil)).bind
          fun w₅ arguments arguments' hle₅ harguments => ?_
        have hle := L.le_trans (L.le_trans (L.le_trans hle₂ hle₃) hle₄) hle₅
        have hhandlers₅ := L.refs_mono (L.le_trans (L.le_trans hle₃ hle₄) hle₅) hhandlers
        exact like_invokeDelegate hcall hhandlers₅
          (.cons (.ref (L.refs_mono (L.le_trans hle₁ hle) hr)) (.cons harguments .nil))
      | void | int | null | struct | address | function => exact .pure trivial

theorem like_announcement {args args' : List Value} (h : List.Forall₂ (L.Values w) args args') :
    L.Like w (fun w x x' => x'.1 = x.1 ∧ Option.Rel (L.Values w) x.2.1 x'.2.1
        ∧ Option.Rel (L.Values w) x.2.2 x'.2.2)
      (Action.announcement m args) (Action.announcement m' args') := by
  unfold Action.announcement
  cases h with
  | nil => exact .fault
  | cons ha h =>
    cases h with
    | nil => exact (like_propertyName ha).bind fun _ _ _ _ hx => .pure ⟨hx, .none, .none⟩
    | cons hb h =>
      cases h with
      | nil => exact (like_propertyName hb).bind fun _ _ _ _ hx => .pure ⟨hx, .none, .none⟩
      | cons hc h =>
        cases h with
        | nil =>
          exact (like_propertyName ha).bind fun _ _ _ hle hx =>
            .pure ⟨hx, .some (values_mono hle hb), .some (values_mono hle hc)⟩
        | cons => exact .fault

theorem like_raise (hcall : L.Calls call call') {method : String} {this this' : Option Value}
    {args args' : List Value} (hthis : Option.Rel (L.Values w) this this')
    (h : List.Forall₂ (L.Values w) args args') :
    L.Like w (fun w => Option.Rel (L.Values w)) (Action.raise m call method this args)
      (Action.raise m' call' method this' args') := by
  refine (like_receiver hthis).bind fun w₁ r r' hle₁ hr => ?_
  refine (like_announcement (list_mono hle₁ h)).bind fun w₂ x x' hle₂ hx => ?_
  obtain ⟨property, before, after⟩ := x
  obtain ⟨property', before', after'⟩ := x'
  obtain ⟨hproperty, hbefore, hafter⟩ := hx
  obtain rfl : property' = property := hproperty
  have hr₂ := L.refs_mono hle₂ hr
  refine (like_record (.notified property' hr₂ hbefore hafter)).bind fun w₃ _ _ hle₃ _ => ?_
  refine (like_raiseEvent hcall property' (L.refs_mono hle₃ hr₂)).bind fun w₄ _ _ _ _ => ?_
  exact .pure .none

/-- The members of the runtime; where handlers are added or removed code must be free to do so. -/
theorem like_answerFor (hcall : L.Calls call call') {member : RuntimeMember}
    (hfree : member = .addHandler ∨ member = .removeHandler → L.Subscribing) {method : String}
    {this this' : Option Value} {args args' : List Value}
    (hthis : Option.Rel (L.Values w) this this') (h : List.Forall₂ (L.Values w) args args') :
    L.Like w (fun w => Option.Rel (L.Values w))
      (Action.answerFor m call member method this args)
      (Action.answerFor m' call' member method this' args') := by
  cases member with
  | objectEquals => exact like_objectEquals h
  | addHandler => exact like_addHandler (hfree (.inl rfl)) hthis h
  | removeHandler => exact like_removeHandler (hfree (.inr rfl)) hthis h
  | raise => exact like_raise hcall hthis h

end SetterLoom.Likeness
