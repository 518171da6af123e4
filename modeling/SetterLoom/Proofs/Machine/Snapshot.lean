import SetterLoom.Proofs.Machine.Handlers
import SetterLoom.Proofs.Machine.Nested
import SetterLoom.Proofs.Machine.Throughout
import SetterLoom.Proofs.Machine.Unhooked

/-!
# Handlers are called from a snapshot

An object that announces a change calls the handlers that it had when the announcement began. Handlers are code
like any other: they may add handlers to the same event and remove them, assign properties and announce changes
in turn. None of this changes who is called. The accessors of the event store another delegate, and a delegate
never changes; so the list can be told from the state before the announcement, although it is read later, when
the event arguments have been made.

* `Action.Returns`: a call that returns, however deep it nests calls, and `Action.returns_iff_invoke`.
* `Action.invokeEach_ok`: the entries of a list are called one after the other.
* `Action.raiseEvent_calls`: the list is the one that was there before.
* `Action.notice_delivered`: what an announcement that returns has done.
-/

namespace SetterLoom
set_option autoImplicit false

namespace Machine

variable {m : Module} {s t : Machine}

theorem Later.unchanged {q : HeapRef} {o : HeapObject} (h : s.Later t) (hq : s.heap.get? q = some o)
    (ho : ∀ type fields, o ≠ .object type fields) : t.heap.get? q = some o := by
  obtain ⟨o', ho', hkept⟩ := h.objects q o hq
  cases hkept with
  | same => exact ho'
  | stored type fields _ => exact absurd rfl (ho type fields)

end Machine

namespace Action

variable {α β : Type} {m : Module} {bound : Nat} {call : Call} {i c : MethodId} {d e : Method} {this : Option Value}
  {arguments : List Value} {s t u : Machine} {v x : Value} {r p q : HeapRef} {name : String}
  {type : TypeDef} {field : Field} {list : List Invocation}

/-! ## Calls that return -/

/-- A call of a method returns a value, with calls nested as deep as it needs. -/
def Returns (m : Module) (i : MethodId) (this : Option Value) (arguments : List Value) (s : Machine) (v : Value)
    (t : Machine) : Prop :=
  ∃ bound, (invokeAt m bound i this arguments).run.run s = (.ok v, t)

theorem Returns.later (h : Returns m i this arguments s v t) : s.Later t := by
  obtain ⟨bound, hrun⟩ := h
  exact (later_invokeAt hrun).1

/-- With the hooks of the runtime, the calls that return are those for which the machine has room. -/
theorem returns_iff_invoke (hs : s.hooks = Machine.withRuntimeMembers.hooks) :
    Returns m i this arguments s v t ↔ (invoke m i this arguments).run.run s = (.ok v, t) := by
  constructor
  · rintro ⟨bound, hrun⟩
    have hroom := ((Upkeep.agree_invoke (m := m) (fun i _ _ => fault (.callDepth (m.methodText i)))
      (s := s) hs i this arguments).1 (Nat.le_max_right bound (s.room + 2))).same
    rw [nestedAt_fault] at hroom
    rw [hroom]
    exact invokeAt_mono (Nat.le_max_left _ _) hrun
  · intro hrun
    rw [invoke_run] at hrun
    exact ⟨_, hrun⟩

theorem later_answered (hd : m.method? i = some d)
    (h : ((⟨m, d⟩ : Site).answer (invokeAt m bound) this arguments >>= fun answer =>
      match answer with
      | some v => pure v
      | none => (⟨m, d⟩ : Site).runBody (invokeAt m bound) this arguments).run.run s = (.ok v, t)) :
    s.Later t := by
  have hcalls := Likeness.calls_later m (Nat.le_refl bound)
  have hthis : ∀ {w}, Option.Rel ((Likeness.later m).Values w) this this :=
    Worlds.rel_refl Likeness.values_later this
  have hlike : (Likeness.later m).Like (s, s.depth) (fun w => (Likeness.later m).Values w)
      ((⟨m, d⟩ : Site).answer (invokeAt m bound) this arguments >>= fun answer =>
        match answer with
        | some v => pure v
        | none => (⟨m, d⟩ : Site).runBody (invokeAt m bound) this arguments)
      ((⟨m, d⟩ : Site).answer (invokeAt m bound) this arguments >>= fun answer =>
        match answer with
        | some v => pure v
        | none => (⟨m, d⟩ : Site).runBody (invokeAt m bound) this arguments) := by
    refine (Likeness.like_answer hcalls rfl trivial hd hthis (Likeness.list_later arguments)).bind
      fun w answer answer' _ hanswer => ?_
    cases hanswer with
    | none => exact Likeness.bodies_later hcalls i hd hd hthis (Likeness.list_later arguments)
    | some hv => exact .pure hv
  obtain ⟨_, _, _, rfl, ⟨rfl, hlater, -⟩, -, -⟩ := hlike ⟨rfl, .refl s, rfl⟩ h
  exact hlater

theorem Returns.noted (h : Returns m i this arguments s v t) : ∃ d events, m.method? i = some d
    ∧ t.trace.toList = s.trace.toList ++ .called (⟨m, d⟩ : Site).name :: events := by
  obtain ⟨bound, hrun⟩ := h
  cases bound with
  | zero => cases (Prod.mk.inj hrun).1
  | succ bound =>
    rw [invokeAt] at hrun
    cases hd : m.method? i with
    | none =>
      unfold invokeWith at hrun
      simp only [hd] at hrun
      cases (Prod.mk.inj hrun).1
    | some d =>
      obtain ⟨-, hanswered⟩ := (invokeWith_run hd this arguments).mp hrun
      obtain ⟨events, hevents⟩ := (later_answered hd hanswered).trace
      refine ⟨d, events, rfl, ?_⟩
      rw [hevents]
      show (s.trace.push (.called (⟨m, d⟩ : Site).name)).toList ++ events = _
      rw [Array.toList_push, List.append_assoc]
      rfl

theorem Returns.learned (h : Returns m i this arguments s v t) (hs : s.Learned m) : t.Learned m := by
  obtain ⟨bound, hrun⟩ := h
  have hkept := (Machine.keeps_learned m).invokeAt bound i this arguments s hs
  rwa [hrun] at hkept

/-! ## Calling the handlers -/

theorem construct_ok (h : (construct m call c [v]).run.run s = (.ok x, u)) :
    x = .ref s.heap.next ∧ ∃ type y, (call c (some x) [v]).run.run
      { s with heap := s.heap.push (.object type .empty) } = (.ok y, u) := by
  unfold construct at h
  obtain ⟨⟨t, type⟩, s₁, howner, hrest⟩ := Steps.bind_ok.mp h
  have hsame : s₁ = s := by
    unfold constructedType at howner
    dsimp only at howner
    split at howner
    · exact (Steps.pure_ok.mp howner).2
    · cases (Prod.mk.inj howner).1
  rw [hsame] at hrest
  dsimp only at hrest
  split at hrest
  · cases (Prod.mk.inj hrest).1
  · obtain ⟨object, s₂, halloc, hmore⟩ := Steps.bind_ok.mp hrest
    obtain ⟨hobject, rfl⟩ := Prod.mk.inj halloc
    obtain rfl := Except.ok.inj hobject
    obtain ⟨y, s₃, hcall, hlast⟩ := Steps.bind_ok.mp hmore
    obtain ⟨rfl, rfl⟩ := Steps.pure_ok.mp hlast
    exact ⟨rfl, type.token, y, hcall⟩

/-- The constructor of the event arguments. -/
def PreparesWith (m : Module) (c : MethodId) : Prop :=
  ∃ t, m.require Surface.eventArgs = .ok t ∧ (m.type? t).bind (m.methodNamed? · Surface.constructor) = some c

theorem preparesWith_of_ok {a : Action MethodId} (ha : a = raiseEvent.eventArgsConstructor m)
    (h : a.run.run s = (.ok c, t)) : PreparesWith m c ∧ t = s := by
  subst ha
  have h : raiseEvent.eventArgsConstructor m s = (.ok c, t) := h
  unfold raiseEvent.eventArgsConstructor at h
  cases hrequire : m.require Surface.eventArgs with
  | error e =>
    simp only [hrequire] at h
    cases (Prod.mk.inj h).1
  | ok type =>
    simp only [hrequire] at h
    cases hc : (m.type? type).bind (m.methodNamed? · Surface.constructor) with
    | none =>
      simp only [hc] at h
      cases (Prod.mk.inj h).1
    | some c' =>
      simp only [hc] at h
      obtain ⟨hc', rfl⟩ := Prod.mk.inj h
      obtain rfl := Except.ok.inj hc'
      exact ⟨⟨type, hrequire, hc⟩, rfl⟩

end Action

/-- The reference behind the event of an object, if there is one, is to an object. -/
def Heap.Attached (m : Module) (h : Heap) (r : HeapRef) : Prop :=
  ∀ q, h.changedCell m r = some (.ref q) → h.get? q ≠ none

theorem Heap.Sound.attached {m : Module} {h : Heap} (hsound : h.Sound m) (r : HeapRef) : h.Attached m r := by
  intro q hq hnone
  rcases hsound r _ hq with hnull | ⟨_, _, _, hsome, hget⟩
  · cases hnull
  · obtain rfl := Value.ref.inj hsome
    rw [hnone] at hget
    cases hget

namespace Action

variable {m : Module} {call : Call} {c : MethodId} {arguments : List Value} {s t u : Machine} {r p q : HeapRef}
  {name : String} {list : List Invocation}

/-- There is one constructor for event arguments, and it does what it is known to do. -/
theorem named_of_construct {bound : Nat} {d : Method} {type : TypeDef} {field : Field} {c' : MethodId} {v x : Value}
    (hprepares : m.Prepares c d type field s.hooks) (hc' : PreparesWith m c')
    (h : (construct m (invokeAt m bound) c' [v]).run.run s = (.ok x, u)) :
    x = .ref s.heap.next ∧ u = named m c d type field v s := by
  obtain ⟨t, hrequire, hc⟩ := hprepares.found
  obtain ⟨t', hrequire', hc'⟩ := hc'
  obtain rfl := Except.ok.inj (hrequire.symm.trans hrequire')
  obtain rfl := Option.some.inj (hc.symm.trans hc')
  cases bound with
  | zero =>
    rw [construct_called hprepares.makes, bind_run] at h
    cases (Prod.mk.inj h).1
  | succ bound =>
    obtain ⟨-, -, hx, hu⟩ := (constructor_run hprepares.makes hprepares.unanswered).mp h
    exact ⟨hx, hu⟩

theorem eventField?_ok {found : Option Field} (h : (eventField? m r).run.run s = (.ok found, t)) :
    t = s ∧ ∃ o, s.heap.get? r = some o ∧ found = o.type?.bind m.eventField? := by
  unfold eventField? at h
  cases hr : s.heap.get? r with
  | none =>
    unfold runtimeType at h
    obtain ⟨_, _, htype, -⟩ := Steps.bind_ok.mp h
    obtain ⟨_, _, hread, -⟩ := Steps.bind_ok.mp htype
    rw [heap_run] at hread
    unfold Heap.typeOf Heap.get at hread
    rw [hr] at hread
    cases (Prod.mk.inj hread).1
  | some o =>
    rw [bind_run, runtimeType_run hr] at h
    obtain ⟨rfl, rfl⟩ := Steps.pure_ok.mp h
    refine ⟨rfl, o, rfl, ?_⟩
    cases o <;> rfl

theorem getField_ok {f : Token} {found : Option Value}
    (h : (heap (·.getField r f)).run.run s = (.ok found, t)) :
    t = s ∧ ∃ type fields, s.heap.get? r = some (.object type fields) ∧ found = fields.get? f := by
  rw [heap_run] at h
  obtain ⟨hfound, rfl⟩ := Prod.mk.inj h
  unfold Heap.getField Heap.get at hfound
  cases hr : s.heap.get? r with
  | none =>
    rw [hr] at hfound
    cases hfound
  | some o =>
    rw [hr] at hfound
    cases o with
    | object type fields => exact ⟨rfl, type, fields, rfl, (Except.ok.inj hfound).symm⟩
    | string | boxed | delegate => cases hfound

theorem changedCell_eq {o : HeapObject} (hr : s.heap.get? r = some o) :
    s.heap.changedCell m r = (o.type?.bind m.eventField?).bind fun f => s.heap.cell r f.token := by
  cases o with
  | object type fields =>
    unfold Heap.changedCell
    rw [eventToken?_of_object hr]
    show ((m.eventField? type).map (·.token)).bind _ = (m.eventField? type).bind _
    cases m.eventField? type <;> rfl
  | string | boxed | delegate =>
    unfold Heap.changedCell Heap.eventToken? Heap.typeAt Heap.cell
    rw [hr]
    simp

theorem invokeDelegate_calls {o : HeapObject} (hlater : s.Later u) (hq : s.heap.get? q = some o)
    (h : (invokeDelegate call q arguments).run.run u = (.ok (), t)) :
    (invokeEach call arguments (s.heap.listOf (some (.ref q)))).run.run u = (.ok (), t) := by
  obtain ⟨o', ho', hkept⟩ := hlater.objects q o hq
  unfold invokeDelegate at h
  rw [bind_run, Site.heap_get_run ho'] at h
  unfold Heap.listOf
  cases hkept with
  | same =>
    cases o with
    | delegate type list =>
      simp only [hq]
      exact h
    | string | object | boxed => cases (Prod.mk.inj h).1
  | stored type fields fields' => cases (Prod.mk.inj h).1

/-- Raising the event of an object calls the handlers that the object has, when the event arguments have been
made. If nothing is behind the event, there are none and nothing happens. -/
theorem raiseEvent_calls
    (hcall : ∀ {i this arguments s v t}, (call i this arguments).run.run s = (.ok v, t) → s.Later t)
    (hattached : s.heap.Attached m r) (h : (raiseEvent m call r name).run.run s = (.ok (), t)) :
    (s.heap.handlers m r = [] ∧ t = s)
      ∨ ∃ c p u, PreparesWith m c ∧ (construct m call c [.ref s.heap.next]).run.run
          { s with heap := s.heap.push (.string name) } = (.ok p, u)
        ∧ (invokeEach call [.ref r, p] (s.heap.handlers m r)).run.run u = (.ok (), t) := by
  -- without a reference behind the event there are no handlers
  have hquiet : ∀ {cell}, s.heap.changedCell m r = cell → (∀ q, cell ≠ some (.ref q)) →
      s.heap.handlers m r = [] := by
    rintro cell rfl hnone
    unfold Heap.handlers Heap.listOf
    split
    · rename_i q hq
      exact absurd hq (hnone q)
    · rfl
  unfold raiseEvent at h
  obtain ⟨found, s₁, hfield, hrest⟩ := Steps.bind_ok.mp h
  obtain ⟨hs₁, o, hr, hfound⟩ := eventField?_ok hfield
  have hcell := changedCell_eq (m := m) hr
  rw [← hfound] at hcell
  rw [hs₁] at hrest
  cases found with
  | none => exact .inl ⟨hquiet hcell nofun, (Steps.pure_ok.mp hrest).2⟩
  | some f =>
    obtain ⟨value, s₂, hread, hraised⟩ := Steps.bind_ok.mp hrest
    obtain ⟨hs₂, type, fields, hobject, hvalue⟩ := getField_ok hread
    rw [Option.bind_some, Heap.cell_of_object hobject, ← hvalue] at hcell
    rw [hs₂] at hraised
    cases value with
    | none => exact .inl ⟨hquiet hcell nofun, (Steps.pure_ok.mp hraised).2⟩
    | some v =>
      cases v with
      | ref q =>
        obtain ⟨c, s₃, hc, hmaking⟩ := Steps.bind_ok.mp hraised
        obtain ⟨hprepares, rfl⟩ := preparesWith_of_ok rfl hc
        obtain ⟨text, s₄, halloc, hnamed⟩ := Steps.bind_ok.mp hmaking
        obtain ⟨htext, rfl⟩ := Prod.mk.inj halloc
        obtain rfl := Except.ok.inj htext
        obtain ⟨p, u, hconstruct, hcalls⟩ := Steps.bind_ok.mp hnamed
        obtain ⟨-, type, y, hmade⟩ := construct_ok hconstruct
        have hlater := (((Machine.Later.refl s₃).push (.string name)).push (.object type .empty)).trans
          (hcall hmade)
        obtain ⟨o', hq⟩ := Option.ne_none_iff_exists'.mp (hattached q hcell)
        have hlist : s₃.heap.handlers m r = s₃.heap.listOf (some (.ref q)) := congrArg s₃.heap.listOf hcell
        refine .inr ⟨c, p, u, hprepares, hconstruct, ?_⟩
        rw [hlist]
        exact invokeDelegate_calls hlater hq hcalls
      | void | int | null | struct | address | function =>
        exact .inl ⟨hquiet hcell nofun, (Steps.pure_ok.mp hraised).2⟩

end Action

/-! ## The handlers in turn -/

/-- A handler is called with arguments, from one state to the next one: the method that its token stands for by
then, on its target. The call is noted. -/
def Invocation.Called (m : Module) (arguments : List Value) (j : Invocation) (s t : Machine) : Prop :=
  ∃ i d v events, s.functions.get? j.method = some i ∧ m.method? i = some d
    ∧ Action.Returns m i (j.target.map .ref) arguments s v t
    ∧ t.trace.toList = s.trace.toList ++ .called (⟨m, d⟩ : Site).name :: events

/-- Event arguments are made for a name: their constructor is given the name, on a new object. -/
structure Machine.Prepared (m : Module) (name : String) (s : Machine) (p : HeapRef) (u : Machine) : Prop where
  new : s.heap.get? p = none
  made : ∃ bound c, Action.PreparesWith m c
    ∧ (Action.construct m (Action.invokeAt m bound) c [.ref s.heap.next]).run.run
        { s with heap := s.heap.push (.string name) } = (.ok (.ref p), u)

/-- What comes of an announcement, from the state in which it was noted. Event arguments are made, and the
handlers of a list are called with the sender and these arguments, one after the other, each in the state in
which the one before has left the machine. The arguments name the property, from the first call on until
something else is stored in them. -/
inductive Delivered (m : Module) (r : HeapRef) (name : String) (list : List Invocation) (s : Machine) :
    Machine → Prop
  | unheard (hlist : list = []) : Delivered m r name list s s
  | heard {p : HeapRef} {stage : Nat → Machine} (prepared : s.Prepared m name p (stage 0))
    (turns : ∀ k (hk : k < list.length),
      list[k].Called m [.ref r, .ref p] (stage k) (stage (k + 1)))
    (named : ∀ c e type field, m.Prepares c e type field s.hooks → ∀ k ≤ list.length,
      (stage k).heap.cell p field.token = (stage 0).heap.cell p field.token →
        (Action.propertyName m (.ref p)).run.run (stage k) = (.ok name, stage k))
    (learned : (∀ h ∈ s.hooks, ∃ member, h.action = .runtime member) → s.Learned m →
      ∀ k ≤ list.length, (stage k).Learned m) :
    Delivered m r name list s (stage list.length)

namespace Action

variable {m : Module} {bound : Nat} {i c : MethodId} {d e : Method} {arguments : List Value} {s t u x : Machine}
  {r p : HeapRef} {v : Value} {name : String} {type : TypeDef} {field : Field} {list : List Invocation}
  {stage : Nat → Machine}

theorem known_ok {token : Token} (h : (known token).run.run s = (.ok i, t)) :
    s.functions.get? token = some i ∧ t = s := by
  cases hi : s.functions.get? token with
  | none =>
    rw [known_run_of_none hi] at h
    cases (Prod.mk.inj h).1
  | some k =>
    rw [known_run_of_some hi] at h
    obtain ⟨hk, rfl⟩ := Prod.mk.inj h
    exact ⟨congrArg some (Except.ok.inj hk), rfl⟩

theorem invokeEach_ok (h : (invokeEach (invokeAt m bound) arguments list).run.run s = (.ok (), t)) :
    ∃ stage : Nat → Machine, stage 0 = s ∧ stage list.length = t
      ∧ ∀ k (hk : k < list.length), list[k].Called m arguments (stage k) (stage (k + 1)) := by
  induction list generalizing s with
  | nil => exact ⟨fun _ => s, rfl, (Steps.pure_ok.mp h).2.symm, nofun⟩
  | cons j rest ih =>
    obtain ⟨i, s₁, hknown, hcalls⟩ := Steps.bind_ok.mp h
    obtain ⟨hi, rfl⟩ := known_ok hknown
    obtain ⟨v, u, hcall, hrest⟩ := Steps.bind_ok.mp hcalls
    obtain ⟨stage, hfirst, hlast, hturns⟩ := ih hrest
    have hreturns : Returns m i (j.target.map .ref) arguments s₁ v u := ⟨bound, hcall⟩
    obtain ⟨d, events, hd, htrace⟩ := hreturns.noted
    -- the stages of the rest, behind the state in front of the first handler
    refine ⟨fun k => Nat.casesOn k s₁ stage, rfl, hlast, fun k hk => ?_⟩
    cases k with
    | zero =>
      rw [← hfirst] at hreturns htrace
      exact ⟨i, d, v, events, hi, hd, hreturns, htrace⟩
    | succ k => exact hturns k (Nat.lt_of_succ_lt_succ hk)

/-- What every call keeps holds at every stage if it holds at the first. -/
theorem stage_induction {P : Machine → Prop}
    (hturns : ∀ k (hk : k < list.length), list[k].Called m arguments (stage k) (stage (k + 1)))
    (hstep : ∀ {i this v s t}, Returns m i this arguments s v t → P s → P t) (hfirst : P (stage 0)) :
    ∀ k ≤ list.length, P (stage k) := by
  intro k
  induction k with
  | zero => exact fun _ => hfirst
  | succ k ih =>
    intro hk
    obtain ⟨_, _, _, _, -, -, hreturns, -⟩ := hturns k hk
    exact hstep hreturns (ih (Nat.le_of_succ_le hk))

theorem prepared_returns (h : s.Prepared m name p u) : ∃ c type y,
    Returns m c (some (.ref p)) [.ref s.heap.next]
      { s with heap := (s.heap.push (.string name)).push (.object type .empty) } y u := by
  obtain ⟨bound, c, -, hconstruct⟩ := h.made
  obtain ⟨-, type, y, hcall⟩ := construct_ok hconstruct
  exact ⟨c, type, y, bound, hcall⟩

theorem learned_of_prepared (hs : s.Learned m) (h : s.Prepared m name p u) : u.Learned m := by
  obtain ⟨_, type, _, hreturns⟩ := prepared_returns h
  have hpushed : Machine.Learned m
      { s with heap := (s.heap.push (.string name)).push (.object type .empty) } := hs
  exact hreturns.learned hpushed

/-- Event arguments name the property as long as nothing else is stored in them. -/
theorem named_of_prepared (hprepares : m.Prepares c e type field s.hooks) (h : s.Prepared m name p u)
    (hlater : u.Later x) (hcell : x.heap.cell p field.token = u.heap.cell p field.token) :
    (propertyName m (.ref p)).run.run x = (.ok name, x) := by
  obtain ⟨bound, c', hc', hconstruct⟩ := h.made
  let told : Machine := { s with heap := s.heap.push (.string name) }
  obtain ⟨hp, rfl⟩ := named_of_construct (s := told) hprepares hc' hconstruct
  obtain rfl := Value.ref.inj hp
  have hmade : (named m c e type field (.ref s.heap.next) told).heap.get? told.heap.next
      = some (.object type.token (TokenMap.empty.insert field.token (.ref s.heap.next))) :=
    get?_made _
  obtain ⟨fields, hfields⟩ := hlater.object hmade
  have hstring := hlater.unchanged (get?_named (s.heap.get?_push_new (.string name))) nofun
  obtain ⟨type', htype', hname⟩ := hprepares.makes.name
  rw [Heap.cell_of_object hfields, Heap.cell_of_object hmade, TokenMap.get?_insert_self] at hcell
  exact propertyName_arguments htype' hname hfields hcell hstring

/-- Raising the event delivers to the handlers that the object had. -/
theorem raiseEvent_delivered (hattached : s.heap.Attached m r)
    (h : (raiseEvent m (invokeAt m bound) r name).run.run s = (.ok (), t)) :
    Delivered m r name (s.heap.handlers m r) s t := by
  obtain ⟨hnone, rfl⟩ | ⟨c, x, u, hc, hconstruct, hcalls⟩ :=
    raiseEvent_calls (fun hrun => (later_invokeAt hrun).1) hattached h
  · exact .unheard hnone
  · obtain ⟨hx, -⟩ := construct_ok hconstruct
    obtain ⟨stage, rfl, rfl, hturns⟩ := invokeEach_ok hcalls
    subst hx
    have hprepared : s.Prepared m name (s.heap.push (.string name)).next (stage 0) := by
      refine ⟨?_, bound, c, hc, hconstruct⟩
      cases hnew : s.heap.get? (s.heap.push (.string name)).next with
      | none => rfl
      | some o =>
        have hsize : s.heap.size + 2 ≤ s.heap.size := by
          have hle := (Heap.get?_eq_some hnew).2
          rwa [show (s.heap.push (.string name)).next.id = (s.heap.push (.string name)).size + 1 from rfl,
            Heap.size_push] at hle
        omega
    refine .heard hprepared hturns (fun c e type field hprepares k hk hcell => ?_) fun _ hs => ?_
    · have hlater := stage_induction (P := (stage 0).Later) hturns
        (fun hreturns hpast => hpast.trans hreturns.later) (.refl _) k hk
      exact named_of_prepared hprepares hprepared hlater hcell
    · exact stage_induction (P := fun u => u.Learned m) hturns (fun hreturns hpast => hreturns.learned hpast)
        (learned_of_prepared hs hprepared)

/-- An announcement that returns has told which property it was, and has called each handler that the object
had when it began once, in order, with the object and the same event arguments, whatever the handlers of the
object have become in the meantime. -/
theorem notice_delivered (hraises : m.Raises i d s.hooks) (hattached : s.heap.Attached m r)
    (h : Returns m i (some (.ref r)) arguments s v t) :
    v = .void ∧ ∃ name before after, (announcement m arguments).run.run s = (.ok (name, before, after), s)
      ∧ Delivered m r name (s.heap.handlers m r) (announced m i d r name before after s) t := by
  obtain ⟨bound, hrun⟩ := h
  cases bound with
  | zero => cases (Prod.mk.inj hrun).1
  | succ bound =>
    rw [invokeAt] at hrun
    obtain ⟨hdepth, -⟩ := (invokeWith_run hraises.method _ _).mp hrun
    obtain ⟨_, hfind, haction⟩ := hraises.hook
    obtain ⟨y, hanswered⟩ := member_of_invokeWith hraises.method hraises.noBody hfind haction hrun
    -- what is announced is read from the heap, so it is the same before the call was noted
    obtain ⟨read, hread⟩ := reading_announcement m arguments
    have htold : (announcement m arguments >>= fun told =>
        record (.notified r told.1 told.2.1 told.2.2) >>= fun _ =>
          raiseEvent m (invokeAt m bound) r told.1 >>= fun _ => pure none).run.run (s.entered ⟨m, d⟩ i)
        = (.ok y, t) := hanswered
    obtain ⟨⟨name, before, after⟩, _, hannounced, -⟩ := Steps.bind_ok.mp htold
    rw [hread] at hannounced
    have hname : read s.heap = .ok (name, before, after) := (Prod.mk.inj hannounced).1
    have hsame : ∀ u : Machine, u.heap = s.heap →
        (announcement m arguments).run.run u = (.ok (name, before, after), u) := by
      intro u hu
      rw [hread, hu, hname]
    obtain ⟨hook, hcalled⟩ := raiser_called (invokeAt m bound) r hraises hdepth hsame
    rw [hcalled] at hrun
    split at hrun
    · rename_i u hraised
      obtain ⟨hv, rfl⟩ := Prod.mk.inj hrun
      exact ⟨(Except.ok.inj hv).symm, name, before, after, hsame s rfl,
        raiseEvent_delivered (s := announced m i d r name before after s) hattached hraised⟩
    · cases (Prod.mk.inj hrun).1

end Action

/-! ## A handler that meddles with the event -/

namespace Echo

/-- Nodes with one more method that can be a handler: it removes the other handler from the event of the sender
and adds itself once more. -/
def restless : Module :=
  { module ⟨6⟩ with
    methods := (module ⟨6⟩).methods.push (some (method 37 "Meddle" 2 ⟨1⟩
      [.ldarg 1, .ldarg 0, .ldftn ⟨6⟩, .newobj ⟨4⟩, .callvirt ⟨1⟩,
        .ldarg 1, .ldarg 0, .ldftn ⟨7⟩, .newobj ⟨4⟩, .callvirt ⟨0⟩, .ret])) }

def meddling : Invocation := ⟨some ⟨1⟩, ⟨37⟩⟩

def hearing : Invocation := ⟨some ⟨1⟩, ⟨36⟩⟩

/-- A machine with a node, a name, and both handlers behind the event of the node. -/
def attended : Machine :=
  { start 600 with
    heap := (((start 600).heap.push (.object ⟨11⟩ (TokenMap.empty.insert handlers.token (.ref ⟨3⟩)))).push
      (.string "Name")).push (.delegate ⟨13⟩ [meddling, hearing])
    functions := (TokenMap.empty.insert ⟨36⟩ ⟨6⟩).insert ⟨37⟩ ⟨7⟩ }

end Echo

namespace Action

/-- The first handler removes the second one and adds itself once more. The second one is called all the same,
and the first one is called once. -/
theorem notice_delivered_meddling : ∃ t,
    Returns Echo.restless ⟨2⟩ (some Echo.node) Echo.change Echo.attended .void t
      ∧ t.heap.handlers Echo.restless ⟨1⟩ = [Echo.meddling, Echo.meddling]
      ∧ Delivered Echo.restless ⟨1⟩ "Name" [Echo.meddling, Echo.hearing]
        (announced Echo.restless ⟨2⟩ (Echo.method 32 Surface.raiser 2 ⟨1⟩) ⟨1⟩ "Name" none none
          Echo.attended) t := by
  let run := (invoke Echo.restless ⟨2⟩ (some Echo.node) Echo.change).run.run Echo.attended
  have hvoid : run.1 = .ok .void := by decide +kernel
  have hrun : (invoke Echo.restless ⟨2⟩ (some Echo.node) Echo.change).run.run Echo.attended
      = (.ok .void, run.2) := by
    rw [← hvoid, Prod.eta]
  have hreturns := (returns_iff_invoke (s := Echo.attended) rfl).mpr hrun
  have hraises : Echo.restless.Raises ⟨2⟩ (Echo.method 32 Surface.raiser 2 ⟨1⟩) Echo.attended.hooks :=
    ⟨by decide +kernel, rfl, RuntimeMember.raise.hook, by decide +kernel, rfl⟩
  have hcell : Echo.attended.heap.changedCell Echo.restless ⟨1⟩ = some (.ref ⟨3⟩) := by decide +kernel
  have hattached : Echo.attended.heap.Attached Echo.restless ⟨1⟩ := by
    intro q hq
    obtain rfl := Value.ref.inj (Option.some.inj (hcell.symm.trans hq))
    decide +kernel
  obtain ⟨-, name, before, after, hannounced, hdelivered⟩ := notice_delivered hraises hattached hreturns
  have hname : ((announcement Echo.restless Echo.change).run.run Echo.attended).1
      = .ok ("Name", none, none) := by
    decide +kernel
  rw [hannounced] at hname
  obtain ⟨rfl, hvalues⟩ := Prod.mk.inj (Except.ok.inj hname)
  obtain ⟨rfl, rfl⟩ := Prod.mk.inj hvalues
  have hlist : Echo.attended.heap.handlers Echo.restless ⟨1⟩ = [Echo.meddling, Echo.hearing] := by
    decide +kernel
  rw [hlist] at hdelivered
  exact ⟨run.2, hreturns, by decide +kernel, hdelivered⟩

end Action

end SetterLoom
