import SetterLoom.Proofs.Machine.Answered
import SetterLoom.Proofs.Machine.Closed
import SetterLoom.Proofs.Weave.Steps

/-!
# With and without the members of the runtime

The hooks of the runtime are asked for every call of a method with one of their names, on whatever type, and
they leave every method alone that has a body. A machine without hooks can run no other method. So as long as
it does not come to a method without a body, it does what the machine does that has these hooks: the results
are the same, errors included, and so are the heap, the trace, the methods that are known and the counters.

* `Undisturbed.bind`: actions made of such actions.
* `undisturbed_step`: one instruction.
* `undisturbed_invokeWith`: one call, and what the hooks answer to it.
* `invoke_installed`: a call with the hooks installed.
-/

namespace SetterLoom
set_option autoImplicit false

namespace Machine

/-- The machine with hooks for the members of the runtime besides those it has. -/
def install (s : Machine) : Machine := (RuntimeMember.all.map (·.hook)).foldl register s

/-- The machine with other hooks. -/
def withHooks (s : Machine) (hooks : HookTable) : Machine := { s with hooks }

theorem install_eq {s : Machine} (h : s.hooks = []) :
    s.install = s.withHooks withRuntimeMembers.hooks := by
  cases s
  cases h
  rfl

end Machine

namespace Action

variable {α β : Type} {a a' : Action α} {f f' : α → Action β} {m : Module} {call call' : Call} {c : Site}

/-! ## Actions that do the same -/

/-- An action does with the hooks of the runtime what another one does without any, unless that one ends for
want of a body. -/
def Undisturbed (a a' : Action α) : Prop :=
  ∀ s r t, s.hooks = [] → a.run.run s = (r, t) → (∀ name, r ≠ .error (.missingBody name)) →
    t.hooks = [] ∧ a'.run.run (s.withHooks Machine.withRuntimeMembers.hooks)
      = (r, t.withHooks Machine.withRuntimeMembers.hooks)

/-- An action that neither looks at the hooks nor changes them. -/
theorem Undisturbed.of_blind
    (h : ∀ s hooks, a.run.run (s.withHooks hooks) = ((a.run.run s).1, (a.run.run s).2.withHooks hooks)) :
    Undisturbed a a := by
  intro s r t hs hrun _
  have hsame := h s s.hooks
  rw [show s.withHooks s.hooks = s from rfl, hrun] at hsame
  refine ⟨?_, by rw [h, hrun]⟩
  rw [(Prod.mk.inj hsame).2]
  exact hs

/-- A failure for want of a body is passed on by everything that runs, so actions made of such actions are
such actions. -/
theorem Undisturbed.bind (ha : Undisturbed a a') (hf : ∀ x, Undisturbed (f x) (f' x)) :
    Undisturbed (a >>= f) (a' >>= f') := by
  intro s r t hs hrun hr
  rcases Steps.bind_cases hrun with ⟨e, hfailed, rfl⟩ | ⟨x, u, hx, hrest⟩
  · obtain ⟨ht, hsame⟩ := ha s (.error e) t hs hfailed fun name heq => hr name (congrArg _ (Except.error.inj heq))
    exact ⟨ht, by rw [bind_run, hsame]⟩
  · obtain ⟨hu, hsame⟩ := ha s (.ok x) u hs hx (by simp)
    obtain ⟨ht, hrest'⟩ := hf x u r t hu hrest hr
    exact ⟨ht, by rw [bind_run, hsame]; exact hrest'⟩

theorem undisturbed_pure (x : α) : Undisturbed (pure x : Action α) (pure x) := .of_blind fun _ _ => rfl

theorem undisturbed_throw (e : Error) : Undisturbed (throw e : Action α) (throw e) := .of_blind fun _ _ => rfl

theorem undisturbed_fault (e : Fault) : Undisturbed (fault e : Action α) (fault e) := undisturbed_throw _

theorem Undisturbed.map {g : α → β} (ha : Undisturbed a a') : Undisturbed (g <$> a) (g <$> a') := by
  rw [← bind_pure_comp, ← bind_pure_comp]
  exact ha.bind fun x => undisturbed_pure (g x)

/-! ## The primitive actions -/

theorem undisturbed_heap (read : Heap → Except Error α) : Undisturbed (heap read) (heap read) :=
  .of_blind fun _ _ => rfl

theorem undisturbed_alloc (o : HeapObject) : Undisturbed (alloc o) (alloc o) := .of_blind fun _ _ => rfl

theorem undisturbed_load (token : Token) (i : MethodId) : Undisturbed (load token i) (load token i) :=
  .of_blind fun _ _ => rfl

theorem undisturbed_setField (r : HeapRef) (field : Token) (v : Value) :
    Undisturbed (setField r field v) (setField r field v) := by
  refine .of_blind fun s hooks => ?_
  show setField r field v (s.withHooks hooks) = ((setField r field v s).1, (setField r field v s).2.withHooks hooks)
  have hheap : (s.withHooks hooks).heap = s.heap := rfl
  unfold setField
  rw [hheap]
  cases s.heap.checkStore r field <;> rfl

theorem known_run_of_none {s : Machine} {token : Token} (h : s.functions.get? token = none) :
    (known token).run.run s = (.error (.emulation (.unknownPointer token)), s) := by
  unfold known
  rw [bind_run, show (get : Action Machine).run.run s = (.ok s, s) from rfl]
  dsimp only
  rw [h]
  rfl

theorem known_run_of_some {s : Machine} {token : Token} {i : MethodId} (h : s.functions.get? token = some i) :
    (known token).run.run s = (.ok i, s) := by
  unfold known
  rw [bind_run, show (get : Action Machine).run.run s = (.ok s, s) from rfl]
  dsimp only
  rw [h]
  rfl

theorem undisturbed_known (token : Token) : Undisturbed (known token) (known token) := by
  refine .of_blind fun s hooks => ?_
  cases h : s.functions.get? token with
  | none => rw [known_run_of_none h, known_run_of_none (s := s.withHooks hooks) h]
  | some i => rw [known_run_of_some h, known_run_of_some (s := s.withHooks hooks) h]

/-! ## Objects at work -/

/-- Calls of one machine without hooks and of one with those of the runtime. -/
def UndisturbedCalls (call call' : Call) : Prop :=
  ∀ i this arguments, Undisturbed (call i this arguments) (call' i this arguments)

theorem undisturbed_runtimeType (r : HeapRef) : Undisturbed (runtimeType m r) (runtimeType m r) :=
  (undisturbed_heap _).bind fun _ => undisturbed_pure _

theorem undisturbed_dispatch (r : HeapRef) (i : MethodId) (d : Method) :
    Undisturbed (dispatch m r i d) (dispatch m r i d) := by
  refine (undisturbed_runtimeType r).bind fun type => ?_
  cases type with
  | none => exact undisturbed_pure _
  | some t => exact undisturbed_pure _

theorem undisturbed_makeDelegate (d : TypeDef) (arguments : List Value) :
    Undisturbed (makeDelegate d arguments) (makeDelegate d arguments) := by
  unfold makeDelegate
  split
  · exact (undisturbed_alloc _).map
  · exact undisturbed_fault _

theorem undisturbed_construct (hcalls : UndisturbedCalls call call') (i : MethodId) (arguments : List Value) :
    Undisturbed (construct m call i arguments) (construct m call' i arguments) := by
  have howner : Undisturbed (constructedType m i) (constructedType m i) := by
    unfold constructedType
    dsimp only
    split
    · exact undisturbed_pure _
    · exact undisturbed_fault _
  refine howner.bind fun owner => ?_
  dsimp only
  split
  · exact undisturbed_makeDelegate _ _
  · refine (undisturbed_alloc _).map.bind fun object => ?_
    exact (hcalls _ _ _).bind fun _ => undisturbed_pure _

theorem undisturbed_invokeEach (hcalls : UndisturbedCalls call call') (arguments : List Value)
    (list : List Invocation) :
    Undisturbed (invokeEach call arguments list) (invokeEach call' arguments list) := by
  induction list with
  | nil => exact undisturbed_pure _
  | cons invocation rest ih =>
    exact (undisturbed_known _).bind fun i => (hcalls i _ _).bind fun _ => ih

theorem undisturbed_invokeDelegate (hcalls : UndisturbedCalls call call') (r : HeapRef)
    (arguments : List Value) :
    Undisturbed (invokeDelegate call r arguments) (invokeDelegate call' r arguments) := by
  refine (undisturbed_heap _).bind fun o => ?_
  cases o with
  | delegate type list => exact undisturbed_invokeEach hcalls arguments list
  | string | object | boxed => exact undisturbed_fault _

end Action

namespace Site

open SetterLoom.Action

variable {m : Module} {call call' : Call} {c : Site} {f : Frame}

/-! ## One instruction -/

theorem undisturbed_unexpected {α : Type} (code : OpCode) :
    Undisturbed (c.unexpected code : Action α) (c.unexpected code) :=
  undisturbed_fault _

theorem undisturbed_pop : Undisturbed (c.pop f) (c.pop f) := by
  unfold pop
  split
  · exact undisturbed_pure _
  · exact undisturbed_fault _

theorem undisturbed_popMany (count : Nat) : Undisturbed (c.popMany f count) (c.popMany f count) := by
  unfold popMany
  split
  · exact undisturbed_pure _
  · exact undisturbed_fault _

theorem undisturbed_object (v : Value) : Undisturbed (c.object v) (c.object v) := by
  unfold object
  split
  · exact undisturbed_pure _
  · exact undisturbed_fault _

theorem undisturbed_pushFound (code : OpCode) (found : Option Value) :
    Undisturbed (c.pushFound code f found) (c.pushFound code f found) := by
  cases found with
  | some v => exact undisturbed_pure _
  | none => exact undisturbed_unexpected code

theorem undisturbed_storeSlot (k : Nat) : Undisturbed (c.storeSlot f k) (c.storeSlot f k) := by
  refine undisturbed_pop.bind fun x => ?_
  dsimp only
  split
  · exact undisturbed_pure _
  · exact undisturbed_unexpected _

theorem undisturbed_loadField (field : Field) : Undisturbed (c.loadField f field) (c.loadField f field) :=
  undisturbed_pop.bind fun x => (undisturbed_object x.1).bind fun _ =>
    (undisturbed_heap _).bind fun _ => undisturbed_pure _

theorem undisturbed_storeField (field : Field) : Undisturbed (c.storeField f field) (c.storeField f field) :=
  undisturbed_pop.bind fun _ => undisturbed_pop.bind fun y => (undisturbed_object y.1).bind fun _ =>
    (undisturbed_setField _ _ _).bind fun _ => undisturbed_pure _

theorem undisturbed_loadAddress (field : Field) :
    Undisturbed (c.loadAddress f field) (c.loadAddress f field) :=
  undisturbed_pop.bind fun x => (undisturbed_object x.1).bind fun _ => undisturbed_pure _

theorem undisturbed_initialise (type : TypeId) :
    Undisturbed (c.initialise f type) (c.initialise f type) := by
  refine undisturbed_pop.bind fun x => ?_
  dsimp only
  split
  · exact (undisturbed_setField _ _ _).bind fun _ => undisturbed_pure _
  · exact undisturbed_unexpected _

theorem undisturbed_boxTop (type : TypeId) : Undisturbed (c.boxTop f type) (c.boxTop f type) := by
  refine undisturbed_pop.bind fun x => ?_
  dsimp only
  split
  · exact (undisturbed_alloc _).bind fun _ => undisturbed_pure _
  · exact undisturbed_pure _

theorem undisturbed_loadFunction (i : MethodId) :
    Undisturbed (c.loadFunction f i) (c.loadFunction f i) := by
  unfold loadFunction
  split
  · exact (undisturbed_load _ _).bind fun _ => undisturbed_pure _
  · exact undisturbed_unexpected _

theorem undisturbed_newObject (hcalls : UndisturbedCalls call call') (i : MethodId) :
    Undisturbed (c.newObject call f i) (c.newObject call' f i) := by
  unfold newObject
  split
  · exact (undisturbed_popMany _).bind fun x =>
      (undisturbed_construct hcalls i x.1).bind fun _ => undisturbed_pure _
  · exact undisturbed_unexpected _

theorem undisturbed_callOnObject (hcalls : UndisturbedCalls call call') (i : MethodId) (d : Method)
    (r : HeapRef) (arguments : List Value) :
    Undisturbed (c.callOnObject call i d r arguments) (c.callOnObject call' i d r arguments) := by
  refine (undisturbed_heap _).bind fun o => ?_
  split
  · exact (undisturbed_invokeDelegate hcalls r arguments).bind fun _ => undisturbed_pure _
  · exact (undisturbed_dispatch r i d).bind fun _ => hcalls _ _ _

theorem undisturbed_callOn (hcalls : UndisturbedCalls call call') (code : OpCode) (i : MethodId) (d : Method)
    (this : Value) (arguments : List Value) :
    Undisturbed (c.callOn call code i d this arguments) (c.callOn call' code i d this arguments) := by
  unfold callOn
  split
  · exact undisturbed_callOnObject hcalls i d _ arguments
  · exact undisturbed_fault _
  · exact hcalls _ _ _

theorem undisturbed_callMethod (hcalls : UndisturbedCalls call call') (code : OpCode) (i : MethodId) :
    Undisturbed (c.callMethod call f code i) (c.callMethod call' f code i) := by
  unfold callMethod
  split
  · exact undisturbed_unexpected _
  · refine (undisturbed_popMany _).bind fun x => ?_
    obtain ⟨arguments, g⟩ := x
    dsimp only
    split
    · exact (hcalls _ _ _).bind fun _ => undisturbed_pure _
    · exact undisturbed_pop.bind fun y =>
        (undisturbed_callOn hcalls code i _ y.1 arguments).bind fun _ => undisturbed_pure _

theorem undisturbed_branchIf (truth : Bool) (l : Label) :
    Undisturbed (c.branchIf f truth l) (c.branchIf f truth l) :=
  undisturbed_pop.bind fun _ => undisturbed_pure _

theorem undisturbed_compareTop : Undisturbed (c.compareTop f) (c.compareTop f) :=
  undisturbed_pop.bind fun _ => undisturbed_pop.bind fun _ => undisturbed_pure _

theorem undisturbed_returnTop : Undisturbed (c.returnTop f) (c.returnTop f) := by
  unfold returnTop
  split
  · exact undisturbed_pop.bind fun _ => undisturbed_pure _
  · exact undisturbed_pure _

theorem undisturbed_step (hcalls : UndisturbedCalls call call') (op : Op) :
    Undisturbed (c.step call op f) (c.step call' op f) := by
  induction op using Op.forms with
  | nop | ldnull | ldcI4 | br => exact undisturbed_pure _
  | ceq => exact undisturbed_compareTop
  | dup | pop => exact undisturbed_pop.bind fun _ => undisturbed_pure _
  | ret => exact undisturbed_returnTop
  | ldarg | ldloc => exact undisturbed_pushFound _ _
  | stloc => exact undisturbed_storeSlot _
  | ldstr => exact (undisturbed_alloc _).map.map
  | ldfld field => exact undisturbed_loadField field
  | stfld field => exact undisturbed_storeField field
  | ldflda field => exact undisturbed_loadAddress field
  | initobj t => exact undisturbed_initialise t
  | box t => exact undisturbed_boxTop t
  | ldftn use => exact undisturbed_loadFunction use.method
  | newobj use => exact undisturbed_newObject hcalls use.method
  | call use | callvirt use => exact undisturbed_callMethod hcalls _ use.method
  | brtrue l | brfalse l => exact undisturbed_branchIf _ l
  | stuck op hstuck =>
    rw [hstuck, hstuck]
    exact undisturbed_unexpected _

/-! ## One call -/

theorem undisturbed_onward {code : Stream} {bound : Nat}
    (hcode : ∀ p f, Undisturbed (c.runFrom call code bound p f) (c.runFrom call' code bound p f))
    (p : Nat) (way : Step) :
    Undisturbed (c.onward call code bound p way) (c.onward call' code bound p way) := by
  cases way with
  | next g => exact hcode (p + 1) g
  | done v => exact .of_blind fun _ _ => rfl
  | jump l g =>
    cases hq : code.lastPosition? l with
    | none =>
      have hlost : ∀ call, c.onward call code bound p (.jump l g) = fault (.unknownLabel c.name) := by
        intro call
        unfold onward continue?
        simp only [hq]
        rfl
      rw [hlost, hlost]
      exact undisturbed_fault _
    | some q =>
      have hjump : ∀ call, c.onward call code bound p (.jump l g) = c.runFrom call code bound q g := by
        intro call
        unfold onward continue?
        simp only [hq]
      rw [hjump, hjump]
      exact hcode q g

theorem undisturbed_runFrom (hcalls : UndisturbedCalls call call') (code : Stream) (bound p : Nat)
    (f : Frame) : Undisturbed (c.runFrom call code bound p f) (c.runFrom call' code bound p f) := by
  induction bound generalizing p f with
  | zero => exact .of_blind fun _ _ => rfl
  | succ bound ih =>
    intro s r t hs hrun hr
    change c.runFrom call code (bound + 1) p f s = (r, t) at hrun
    show t.hooks = [] ∧ c.runFrom call' code (bound + 1) p f (s.withHooks Machine.withRuntimeMembers.hooks)
      = (r, t.withHooks Machine.withRuntimeMembers.hooks)
    cases hi : code[p]? with
    | none =>
      rw [runFrom_past hi] at hrun ⊢
      obtain ⟨rfl, rfl⟩ := Prod.mk.inj hrun
      exact ⟨hs, rfl⟩
    | some i =>
      by_cases hlimit : s.limit ≤ s.executed
      · rw [runFrom_limit f bound hi hlimit] at hrun
        rw [runFrom_limit f bound hi (s := s.withHooks Machine.withRuntimeMembers.hooks) hlimit]
        obtain ⟨rfl, rfl⟩ := Prod.mk.inj hrun
        exact ⟨hs, rfl⟩
      · have hlt := Nat.lt_of_not_le hlimit
        rw [runFrom_counted hi hlt] at hrun
        rw [runFrom_counted (s := s.withHooks Machine.withRuntimeMembers.hooks) hi hlt]
        -- the run is one action made of the step and what comes behind it,
        -- and a want of a body passes through both
        have hrest := (undisturbed_step (c := c) (f := f) hcalls i.op).bind (undisturbed_onward ih p)
        exact hrest { s with executed := s.executed + 1 } r t hs hrun hr

theorem undisturbed_startFrame (body : Body) (this : Option Value) (arguments : List Value) :
    Undisturbed (c.startFrame body this arguments) (c.startFrame body this arguments) := by
  unfold startFrame
  split
  · exact undisturbed_pure _
  · cases this with
    | some r => exact undisturbed_pure _
    | none => exact undisturbed_fault _

theorem undisturbed_runBody (hcalls : UndisturbedCalls call call') (this : Option Value)
    (arguments : List Value) :
    Undisturbed (c.runBody call this arguments) (c.runBody call' this arguments) := by
  unfold runBody
  cases c.method.body with
  | none => exact undisturbed_throw _
  | some body =>
    refine (undisturbed_startFrame body this arguments).bind fun f => ?_
    intro s r t hs hrun hr
    let leave (y : Except Error Value × Machine) := (y.1, { y.2 with depth := y.2.depth - 1 })
    cases hcode : c.run call body.code f { s with depth := s.depth + 1 } with
    | mk result u =>
      obtain ⟨rfl, rfl⟩ : result = r ∧ { u with depth := u.depth - 1 } = t :=
        Prod.mk.inj ((congrArg leave hcode).symm.trans hrun)
      obtain ⟨hu, hsame⟩ := undisturbed_runFrom hcalls body.code (s.limit - s.executed + 1) 0 f
        { s with depth := s.depth + 1 } result u hs hcode hr
      exact ⟨hu, congrArg leave hsame⟩

theorem answer_unhooked (this : Option Value) (arguments : List Value) {s : Machine} (hs : s.hooks = []) :
    (c.answer call this arguments).run.run s = (.ok none, s) :=
  Action.answer_passed (by rw [hs]; rfl) this arguments

theorem answer_of_body (hbody : c.method.body.isSome) (this : Option Value) (arguments : List Value)
    {s : Machine} (hs : s.hooks = Machine.withRuntimeMembers.hooks) :
    (c.answer call this arguments).run.run s = (.ok none, s) := by
  unfold answer
  rw [bind_run, show (get : Action Machine).run.run s = (.ok s, s) from rfl]
  dsimp only
  rw [hs]
  cases hfind : Machine.withRuntimeMembers.hooks.find? c.callName with
  | none => rfl
  | some h =>
    obtain ⟨member, rfl⟩ := Upkeep.hook_of_mem (List.mem_of_find?_eq_some hfind)
    have haction : member.hook.action = .runtime member := by cases member <;> rfl
    dsimp only
    unfold askHook
    rw [haction]
    dsimp only
    rw [if_pos hbody]
    rfl

end Site

namespace Action

variable {m : Module} {call call' : Call}

/-- What a call does once it is on the trace: without hooks a method without a body ends it, and one with a
body is left alone by the hooks of the runtime. -/
theorem undisturbed_answered (hcalls : UndisturbedCalls call call') (c : Site) (this : Option Value)
    (arguments : List Value) :
    Undisturbed
      (c.answer call this arguments >>= fun answer =>
        match answer with
        | some v => pure v
        | none => c.runBody call this arguments)
      (c.answer call' this arguments >>= fun answer =>
        match answer with
        | some v => pure v
        | none => c.runBody call' this arguments) := by
  intro s r t hs hrun hr
  rw [bind_run, Site.answer_unhooked this arguments hs] at hrun
  have hbody : c.method.body.isSome := by
    by_contra hnone
    have hmissing : (c.runBody call this arguments).run.run s = (.error (.missingBody c.name), s) := by
      unfold Site.runBody
      rw [Option.not_isSome_iff_eq_none.mp hnone]
      rfl
    exact hr c.name (congrArg Prod.fst (hrun.symm.trans hmissing))
  rw [bind_run, Site.answer_of_body (s := s.withHooks Machine.withRuntimeMembers.hooks) hbody this arguments rfl]
  exact Site.undisturbed_runBody hcalls this arguments s r t hs hrun hr

theorem undisturbed_invokeWith (hcalls : UndisturbedCalls call call') (i : MethodId) (this : Option Value)
    (arguments : List Value) :
    Undisturbed (invokeWith m call i this arguments) (invokeWith m call' i this arguments) := by
  cases hd : m.method? i with
  | none =>
    unfold invokeWith
    simp only [hd]
    exact undisturbed_throw _
  | some d =>
    intro s r t hs hrun hr
    by_cases hdepth : s.depth < maxDepth
    · rw [invokeWith_entered hd this arguments hdepth] at hrun
      rw [invokeWith_entered (s := s.withHooks Machine.withRuntimeMembers.hooks) hd this arguments hdepth]
      exact undisturbed_answered hcalls ⟨m, d⟩ this arguments (s.entered ⟨m, d⟩ i) r t hs hrun hr
    · have hdeep := Nat.le_of_not_lt hdepth
      rw [invokeWith_deep hd this arguments hdeep] at hrun
      obtain ⟨rfl, rfl⟩ := Prod.mk.inj hrun
      exact ⟨hs, invokeWith_deep (s := s.withHooks Machine.withRuntimeMembers.hooks) hd this arguments hdeep⟩

theorem undisturbed_invokeAt (m : Module) (bound : Nat) :
    UndisturbedCalls (invokeAt m bound) (invokeAt m bound) := by
  induction bound with
  | zero => exact fun _ _ _ => undisturbed_fault _
  | succ bound ih => exact fun i this arguments => undisturbed_invokeWith ih i this arguments

/-- A call that a machine without hooks does not end for want of a body goes the same way with the hooks of
the runtime installed: it has the same result, whether that is a value or an error, and leaves the same state
but for the hooks. -/
theorem invoke_installed (m : Module) (i : MethodId) (this : Option Value) (arguments : List Value)
    {s t : Machine} {r : Except Error Value} (hs : s.hooks = [])
    (hrun : (invoke m i this arguments).run.run s = (r, t)) (hr : ∀ name, r ≠ .error (.missingBody name)) :
    (invoke m i this arguments).run.run s.install = (r, t.install) := by
  rw [invoke_run] at hrun ⊢
  obtain ⟨ht, hsame⟩ := undisturbed_invokeAt m (nesting s) i this arguments s r t hs hrun hr
  rw [Machine.install_eq hs, Machine.install_eq ht]
  exact hsame

end Action

/-! ## Members with bodies -/

namespace Echo

/-- Nodes that have bodies for the members of their event: one that is told stores the name, and adding a
handler tells the node. -/
def spoken : Module where
  name := "Echo"
  types := #[some ⟨⟨10⟩, "System", "Object", .object, true, none, [], [], [], [], [], []⟩,
    some ⟨⟨11⟩, "", "Node", .classType, false, none, [], [name], [⟨0⟩, ⟨1⟩], [], [], []⟩]
  methods := #[some (method 30 (Surface.adder Surface.changedEvent) 1 ⟨1⟩
      [.ldarg 0, .ldarg 1, .callvirt ⟨1⟩, .ret]),
    some (method 31 Surface.raiser 1 ⟨1⟩ [.ldarg 0, .ldarg 1, .stfld name, .ret])]
  registry := Registry.insert {} ⟨11⟩ "Node" ⟨1⟩

/-- A machine without hooks, with a node and a name. -/
def bare : Machine := { heap := (Heap.push {} (.object ⟨11⟩ .empty)).push (.string "Name") }

end Echo

/-- A node is given the name as a handler, without the hooks that answer for this and with them. -/
theorem Action.invoke_installed_spoken :
    let told := (invoke Echo.spoken ⟨0⟩ (some Echo.node) [.ref ⟨2⟩]).run.run Echo.bare
    told.1 = .ok .void ∧ told.2.executed = 8
      ∧ (invoke Echo.spoken ⟨0⟩ (some Echo.node) [.ref ⟨2⟩]).run.run Echo.bare.install
        = (told.1, told.2.install) := by
  intro told
  have hvoid : told.1 = .ok .void := by decide +kernel
  exact ⟨hvoid, by decide +kernel,
    invoke_installed Echo.spoken ⟨0⟩ (some Echo.node) [.ref ⟨2⟩] rfl rfl (by rw [hvoid]; simp)⟩

end SetterLoom
