import SetterLoom.Proofs.Machine.Closed
import SetterLoom.Proofs.Weave.Steps

/-!
# Whatever a machine does

A machine changes its state in few ways: it changes the heap, adds to the trace, counts instructions and
levels, and makes methods of its module known. Whatever is asked of it, whichever hooks answer and however it
ends, it goes on in these ways only. So a relation that they keep holds between the states before and behind.

* `Action.Reading`: actions that change nothing.
* `Action.Keeps`: relations that the single changes keep.
* `Keeps.step`, `Keeps.invokeAt`, `Keeps.request`: what keeps them then.
* `Machine.Learned.run`: known tokens go on standing for methods that have them.
-/

namespace SetterLoom
set_option autoImplicit false

namespace Action

variable {α β : Type}

/-! ## Actions that only read -/

/-- The action reads the heap and changes nothing. -/
def Reading (a : Action α) : Prop :=
  ∃ read : Heap → Except Error α, ∀ s, a.run.run s = (read s.heap, s)

theorem reading_pure (x : α) : Reading (pure x : Action α) := ⟨fun _ => .ok x, fun _ => rfl⟩

theorem reading_throw (e : Error) : Reading (throw e : Action α) := ⟨fun _ => .error e, fun _ => rfl⟩

theorem reading_heap (read : Heap → Except Error α) : Reading (heap read) := ⟨read, fun _ => rfl⟩

theorem Reading.bind {a : Action α} {f : α → Action β} (ha : Reading a) (hf : ∀ x, Reading (f x)) :
    Reading (a >>= f) := by
  obtain ⟨read, hread⟩ := ha
  choose next hnext using hf
  refine ⟨fun h => read h >>= fun x => next x h, fun s => ?_⟩
  rw [bind_run, hread]
  cases hx : read s.heap with
  | error e => simp only [hx]; rfl
  | ok x => simp only [hx]; exact hnext x s

theorem reading_stringValue (v : Value) : Reading (stringValue v) := by
  cases v with
  | null => exact reading_pure _
  | ref q => exact (reading_heap _).bind fun _ => reading_pure _
  | void | int | struct | address | function => exact reading_throw _

theorem reading_nameInArguments (m : Module) (r : HeapRef) : Reading (nameInArguments m r) := by
  have hlift : Reading (nameInArguments.liftExcept (m.require Surface.eventArgs)) :=
    ⟨fun _ => m.require Surface.eventArgs, fun _ => rfl⟩
  refine hlift.bind fun t => ?_
  cases (m.type? t).bind (·.field? Surface.nameField) with
  | none => exact reading_throw _
  | some field =>
    exact ((reading_heap _).bind fun _ => reading_pure _).bind fun v =>
      (reading_stringValue v).bind fun _ => reading_pure _

theorem reading_propertyName (m : Module) (v : Value) : Reading (propertyName m v) := by
  cases v with
  | ref r =>
    refine (reading_heap (·.get r)).bind fun o => ?_
    cases o with
    | string name => exact reading_pure _
    | object | boxed | delegate => exact reading_nameInArguments m r
  | void | int | null | struct | address | function => exact reading_throw _

theorem reading_announcement (m : Module) (arguments : List Value) : Reading (announcement m arguments) := by
  match arguments with
  | [] => exact reading_throw _
  | [a] => exact (reading_propertyName m a).bind fun _ => reading_pure _
  | [_, a] => exact (reading_propertyName m a).bind fun _ => reading_pure _
  | [a, _, _] => exact (reading_propertyName m a).bind fun _ => reading_pure _
  | _ :: _ :: _ :: _ :: _ => exact reading_throw _

/-! ## Actions that change the state -/

/-- A relation that the single changes of a machine keep. -/
structure Keeps (m : Module) (R : Machine → Machine → Prop) : Prop where
  refl : ∀ s, R s s
  trans : ∀ {s t u}, R s t → R t u → R s u
  heap : ∀ s heap, R s { s with heap }
  trace : ∀ s trace, R s { s with trace }
  executed : ∀ s executed, R s { s with executed }
  depth : ∀ s depth, R s { s with depth }
  know : ∀ s i d, m.method? i = some d → R s { s with functions := s.functions.insertNew d.token i }
  load : ∀ s i d, m.method? i = some d → R s { s with functions := s.functions.insert d.token i }

namespace Keeps

variable {m : Module} {R : Machine → Machine → Prop} (h : Keeps m R)
include h

theorem bind {a : Action α} {f : α → Action β} (ha : Steps.Within R a) (hf : ∀ x, Steps.Within R (f x)) :
    Steps.Within R (a >>= f) :=
  Steps.within_bind (R := R) (fun hr hr' => h.trans hr hr') ha hf

theorem pure (x : α) : Steps.Within R (Pure.pure x : Action α) := Steps.within_pure h.refl x

theorem throw (e : Error) : Steps.Within R (throw e : Action α) := Steps.within_throw h.refl e

theorem fault (f : Fault) : Steps.Within R (Action.fault f : Action α) := h.throw _

theorem get : Steps.Within R (MonadState.get : Action Machine) := Steps.within_get h.refl

theorem map {a : Action α} (ha : Steps.Within R a) (f : α → β) : Steps.Within R (f <$> a) := by
  rw [← bind_pure_comp]
  exact h.bind ha fun x => h.pure (f x)

theorem reading {a : Action α} (ha : Reading a) : Steps.Within R a := by
  obtain ⟨read, hread⟩ := ha
  intro s
  rw [hread]
  exact h.refl s

theorem read (read : Heap → Except Error α) : Steps.Within R (Action.heap read) := h.reading (reading_heap read)

theorem alloc (o : HeapObject) : Steps.Within R (alloc o) := fun s => h.heap s _

theorem allocString (text : String) : Steps.Within R (allocString text) := h.map (h.alloc _) _

theorem allocObject (type : Token) : Steps.Within R (allocObject type) := h.map (h.alloc _) _

theorem setField (r : HeapRef) (field : Token) (v : Value) : Steps.Within R (setField r field v) := by
  intro s
  show R s (Action.setField r field v s).2
  unfold Action.setField
  split
  · exact h.heap s _
  · exact h.refl s

theorem record (e : TraceEvent) : Steps.Within R (record e) := fun s => h.trace s _

theorem known (token : Token) : Steps.Within R (known token) := by
  refine h.bind h.get fun s => ?_
  split
  · exact h.pure _
  · exact h.fault _

theorem runtimeType (r : HeapRef) : Steps.Within R (runtimeType m r) := h.bind (h.read _) fun _ => h.pure _

/-! ## Objects at work -/

/-- All calls keep the relation. -/
def Calls (R : Machine → Machine → Prop) (call : Call) : Prop :=
  ∀ i this arguments, Steps.Within R (call i this arguments)

variable {call : Call}

theorem constructedType (i : MethodId) : Steps.Within R (constructedType m i) := by
  unfold Action.constructedType
  dsimp only
  split
  · exact h.pure _
  · exact h.fault _

theorem makeDelegate (type : TypeDef) (arguments : List Value) : Steps.Within R (makeDelegate type arguments) := by
  unfold Action.makeDelegate
  split
  · exact h.map (h.alloc _) _
  · exact h.fault _

theorem construct (hcall : Calls R call) (i : MethodId) (arguments : List Value) :
    Steps.Within R (construct m call i arguments) := by
  refine h.bind (h.constructedType i) fun ⟨t, d⟩ => ?_
  dsimp only
  split
  · exact h.makeDelegate d arguments
  · exact h.bind (h.allocObject _) fun object => h.bind (hcall i _ _) fun _ => h.pure _

theorem invokeEach (hcall : Calls R call) (arguments : List Value) (list : List Invocation) :
    Steps.Within R (invokeEach call arguments list) := by
  induction list with
  | nil => exact h.pure ()
  | cons invocation rest ih => exact h.bind (h.known _) fun i => h.bind (hcall i _ _) fun _ => ih

theorem invokeDelegate (hcall : Calls R call) (r : HeapRef) (arguments : List Value) :
    Steps.Within R (invokeDelegate call r arguments) := by
  refine h.bind (h.read _) fun o => ?_
  split
  · exact h.invokeEach hcall _ _
  · exact h.fault _

theorem dispatch (r : HeapRef) (i : MethodId) (d : Method) : Steps.Within R (dispatch m r i d) := by
  refine h.bind (h.runtimeType r) fun type => ?_
  split
  · exact h.pure _
  · exact h.pure _

/-! ## Members of the runtime -/

theorem valuesEqual (a b : Value) : Steps.Within R (valuesEqual a b) := by
  unfold Action.valuesEqual
  split
  · split
    · exact h.pure _
    · refine h.bind (h.read _) fun left => h.bind (h.read _) fun right => ?_
      split <;> exact h.pure _
  · exact h.pure _

theorem objectEquals (arguments : List Value) : Steps.Within R (objectEquals arguments) := by
  unfold Action.objectEquals
  split
  · exact h.bind (h.valuesEqual _ _) fun _ => h.pure _
  · exact h.fault _

theorem receiver (method : String) (this : Option Value) : Steps.Within R (receiver method this) := by
  unfold Action.receiver
  split
  · exact h.pure _
  · exact h.fault _

theorem eventField? (r : HeapRef) : Steps.Within R (eventField? m r) :=
  h.bind (h.runtimeType r) fun _ => h.pure _

theorem invocations (v : Value) : Steps.Within R (invocations v) := by
  unfold Action.invocations
  split
  · exact h.pure _
  · refine h.bind (h.read _) fun o => ?_
    split
    · exact h.pure _
    · exact h.fault _
  · exact h.fault _

theorem fieldOrNull (r : HeapRef) (field : Token) : Steps.Within R (fieldOrNull r field) :=
  h.bind (h.read _) fun _ => h.pure _

theorem storeHandlers (source : HeapRef) (field : Field) (like : HeapRef) (list : List Invocation) :
    Steps.Within R (storeHandlers source field like list) := by
  unfold Action.storeHandlers
  split
  · exact h.setField _ _ _
  · refine h.bind (h.read _) fun type => ?_
    split
    · exact h.bind (h.alloc _) fun _ => h.setField _ _ _
    · exact h.fault _

theorem handlerArguments (method : String) (this : Option Value) (arguments : List Value) :
    Steps.Within R (handlerArguments m method this arguments) := by
  refine h.bind (h.receiver method this) fun source => ?_
  split
  · exact h.pure _
  · refine h.bind (h.eventField? source) fun field => ?_
    split
    · exact h.pure _
    · exact h.fault _

theorem addHandler (method : String) (this : Option Value) (arguments : List Value) :
    Steps.Within R (addHandler m method this arguments) := by
  refine h.bind (h.handlerArguments method this arguments) fun place => ?_
  split
  · exact h.pure _
  · exact h.bind (h.invocations _) fun _ => h.bind (h.fieldOrNull _ _) fun _ => h.bind (h.invocations _) fun _ =>
      h.bind (h.storeHandlers _ _ _ _) fun _ => h.bind (h.record _) fun _ => h.pure _

theorem removeHandler (method : String) (this : Option Value) (arguments : List Value) :
    Steps.Within R (removeHandler m method this arguments) := by
  refine h.bind (h.handlerArguments method this arguments) fun place => ?_
  split
  · exact h.pure _
  · refine h.bind (h.invocations _) fun removed => h.bind (h.fieldOrNull _ _) fun v =>
      h.bind (h.invocations v) fun present => ?_
    dsimp only
    split
    · exact h.bind (h.storeHandlers _ _ _ _) fun _ => h.bind (h.record _) fun _ => h.pure _
    · exact h.bind (h.record _) fun _ => h.pure _

theorem raiseEvent (hcall : Calls R call) (sender : HeapRef) (property : String) :
    Steps.Within R (raiseEvent m call sender property) := by
  have hconstructor : Steps.Within R (raiseEvent.eventArgsConstructor m) := fun s => by
    show R s (raiseEvent.eventArgsConstructor m s).2
    unfold raiseEvent.eventArgsConstructor
    split
    · exact h.refl s
    · split <;> exact h.refl s
  refine h.bind (h.eventField? sender) fun field => ?_
  split
  · exact h.pure _
  · refine h.bind (h.read _) fun stored => ?_
    split
    · exact h.bind hconstructor fun _ => h.bind (h.allocString _) fun _ => h.bind (h.construct hcall _ _) fun _ =>
        h.invokeDelegate hcall _ _
    · exact h.pure _

theorem raise (hcall : Calls R call) (method : String) (this : Option Value) (arguments : List Value) :
    Steps.Within R (raise m call method this arguments) :=
  h.bind (h.receiver method this) fun _ => h.bind (h.reading (reading_announcement m arguments)) fun _ =>
    h.bind (h.record _) fun _ => h.bind (h.raiseEvent hcall _ _) fun _ => h.pure _

theorem answerFor (hcall : Calls R call) (member : RuntimeMember) (method : String) (this : Option Value)
    (arguments : List Value) : Steps.Within R (answerFor m call member method this arguments) := by
  cases member with
  | objectEquals => exact h.objectEquals arguments
  | addHandler => exact h.addHandler method this arguments
  | removeHandler => exact h.removeHandler method this arguments
  | raise => exact h.raise hcall method this arguments

end Keeps

namespace Keeps

variable {c : Site} {R : Machine → Machine → Prop} {call : Call} (h : Keeps c.module R) (f : Frame)
include h

/-! ## One instruction -/

theorem unexpected (code : OpCode) : Steps.Within R (c.unexpected code : Action α) := h.fault _

theorem pop : Steps.Within R (c.pop f) := by
  unfold Site.pop
  split
  · exact h.pure _
  · exact h.fault _

theorem popMany (count : Nat) : Steps.Within R (c.popMany f count) := by
  unfold Site.popMany
  split
  · exact h.pure _
  · exact h.fault _

theorem object (v : Value) : Steps.Within R (c.object v) := by
  unfold Site.object
  split
  · exact h.pure _
  · exact h.fault _

theorem pushFound (code : OpCode) (found : Option Value) : Steps.Within R (c.pushFound code f found) := by
  unfold Site.pushFound
  split
  · exact h.pure _
  · exact h.unexpected code

theorem storeSlot (index : Nat) : Steps.Within R (c.storeSlot f index) := by
  refine h.bind (h.pop f) fun ⟨v, f⟩ => ?_
  dsimp only
  split
  · exact h.pure _
  · exact h.unexpected .stloc

theorem loadField (field : Field) : Steps.Within R (c.loadField f field) :=
  h.bind (h.pop f) fun ⟨v, _⟩ => h.bind (h.object v) fun _ => h.bind (h.read _) fun _ => h.pure _

theorem storeField (field : Field) : Steps.Within R (c.storeField f field) :=
  h.bind (h.pop f) fun ⟨_, f⟩ => h.bind (h.pop f) fun ⟨o, _⟩ => h.bind (h.object o) fun _ =>
    h.bind (h.setField _ _ _) fun _ => h.pure _

theorem loadAddress (field : Field) : Steps.Within R (c.loadAddress f field) :=
  h.bind (h.pop f) fun ⟨v, _⟩ => h.bind (h.object v) fun _ => h.pure _

theorem initialise (type : TypeId) : Steps.Within R (c.initialise f type) := by
  refine h.bind (h.pop f) fun ⟨v, f⟩ => ?_
  dsimp only
  split
  · exact h.bind (h.setField _ _ _) fun _ => h.pure _
  · exact h.unexpected .initobj

theorem boxTop (type : TypeId) : Steps.Within R (c.boxTop f type) := by
  refine h.bind (h.pop f) fun ⟨v, f⟩ => ?_
  dsimp only
  split
  · exact h.bind (h.alloc _) fun _ => h.pure _
  · exact h.pure _

theorem loadFunction (i : MethodId) : Steps.Within R (c.loadFunction f i) := by
  unfold Site.loadFunction
  split
  · rename_i d hd
    exact h.bind (fun s => h.load s i d hd) fun _ => h.pure _
  · exact h.unexpected .ldftn

theorem branchIf (truth : Bool) (label : Label) : Steps.Within R (c.branchIf f truth label) :=
  h.bind (h.pop f) fun ⟨_, _⟩ => h.pure _

theorem compareTop : Steps.Within R (c.compareTop f) :=
  h.bind (h.pop f) fun ⟨_, f⟩ => h.bind (h.pop f) fun ⟨_, _⟩ => h.pure _

theorem duplicate : Steps.Within R (c.duplicate f) := h.bind (h.pop f) fun ⟨_, _⟩ => h.pure _

theorem dropTop : Steps.Within R (c.dropTop f) := h.bind (h.pop f) fun ⟨_, _⟩ => h.pure _

theorem returnTop : Steps.Within R (c.returnTop f) := by
  unfold Site.returnTop
  split
  · exact h.bind (h.pop f) fun ⟨_, _⟩ => h.pure _
  · exact h.pure _

variable (hcall : Calls R call)
include hcall

theorem newObject (i : MethodId) : Steps.Within R (c.newObject call f i) := by
  unfold Site.newObject
  split
  · exact h.bind (h.popMany f _) fun ⟨arguments, _⟩ => h.bind (h.construct hcall i arguments) fun _ => h.pure _
  · exact h.unexpected .newobj

theorem callOnObject (i : MethodId) (d : Method) (r : HeapRef) (arguments : List Value) :
    Steps.Within R (c.callOnObject call i d r arguments) := by
  refine h.bind (h.read _) fun o => ?_
  split
  · exact h.bind (h.invokeDelegate hcall r arguments) fun _ => h.pure _
  · exact h.bind (h.dispatch r i d) fun target => hcall target _ _

theorem callOn (code : OpCode) (i : MethodId) (d : Method) (this : Value) (arguments : List Value) :
    Steps.Within R (c.callOn call code i d this arguments) := by
  unfold Site.callOn
  split
  · exact h.callOnObject hcall i d _ arguments
  · exact h.fault _
  · exact hcall i _ _

theorem callMethod (code : OpCode) (i : MethodId) : Steps.Within R (c.callMethod call f code i) := by
  unfold Site.callMethod
  split
  · exact h.unexpected code
  · refine h.bind (h.popMany f _) fun ⟨arguments, f⟩ => ?_
    dsimp only
    split
    · exact h.bind (hcall i _ _) fun _ => h.pure _
    · exact h.bind (h.pop f) fun ⟨this, _⟩ => h.bind (h.callOn hcall code i _ this arguments) fun _ => h.pure _

theorem step (op : Op) : Steps.Within R (c.step call op f) := by
  induction op using Op.forms with
  | nop | ldnull | ldcI4 | br => exact h.pure _
  | ceq => exact h.compareTop f
  | dup => exact h.duplicate f
  | pop => exact h.dropTop f
  | ret => exact h.returnTop f
  | ldarg | ldloc => exact h.pushFound f _ _
  | stloc => exact h.storeSlot f _
  | ldstr text => exact h.map (h.allocString text) _
  | ldfld field => exact h.loadField f field
  | stfld field => exact h.storeField f field
  | ldflda field => exact h.loadAddress f field
  | initobj type => exact h.initialise f type
  | box type => exact h.boxTop f type
  | ldftn use => exact h.loadFunction f use.method
  | newobj use => exact h.newObject f hcall use.method
  | call use | callvirt use => exact h.callMethod f hcall _ use.method
  | brtrue label | brfalse label => exact h.branchIf f _ label
  | stuck op hstuck =>
    rw [hstuck]
    exact h.unexpected _

/-! ## Bodies and calls -/

theorem runFrom (code : Stream) (bound position : Nat) (f : Frame) (s : Machine) :
    R s (c.runFrom call code bound position f s).2 := by
  -- whether it fails, ends or goes on, an instruction is counted and then run
  induction bound generalizing position f s with
  | zero => exact h.refl s
  | succ bound ih =>
    rw [Site.runFrom]
    split
    · exact h.refl s
    · rename_i i hi
      split
      · exact h.executed s _
      · have hstep := h.step f hcall i.op { s with executed := s.executed + 1 }
        have hcounted := h.trans (h.executed s (s.executed + 1)) hstep
        rw [show (c.step call i.op f).run.run { s with executed := s.executed + 1 }
          = c.step call i.op f { s with executed := s.executed + 1 } from rfl] at hcounted
        cases hs : c.step call i.op f { s with executed := s.executed + 1 } with
        | mk result t =>
          rw [hs] at hcounted
          cases result with
          | error e => exact hcounted
          | ok go =>
            cases go with
            | next f => exact h.trans hcounted (ih _ f t)
            | done v => exact hcounted
            | jump l f =>
              dsimp only
              split
              · exact h.trans hcounted (ih _ f t)
              · exact hcounted

theorem runBody (this : Option Value) (arguments : List Value) : Steps.Within R (c.runBody call this arguments) := by
  have hframe (body : Body) : Steps.Within R (c.startFrame body this arguments) := by
    unfold Site.startFrame
    split
    · exact h.pure _
    · split
      · exact h.pure _
      · exact h.fault _
  unfold Site.runBody
  split
  · rename_i body hbody
    refine h.bind (hframe body) fun f s => ?_
    let ran : Machine := (c.run call body.code f { s with depth := s.depth + 1 }).2
    have hran : R s ran := h.trans (h.depth s (s.depth + 1)) (h.runFrom hcall body.code _ 0 f _)
    exact h.trans hran (h.depth ran (ran.depth - 1))
  · exact h.throw _

theorem askHook (hook : Hook) (this : Option Value) (arguments : List Value) :
    Steps.Within R (c.askHook call hook this arguments) := by
  unfold Site.askHook
  split
  · exact h.pure _
  · exact h.throw _
  · exact h.pure _
  · exact h.pure _
  · exact h.pure _
  · split
    · exact h.pure _
    · exact Steps.within_tryCatch (R := R) (fun hr hr' => h.trans hr hr')
        (h.bind (h.answerFor hcall _ _ _ _) fun _ => h.pure _) fun e => h.throw _

theorem answer (this : Option Value) (arguments : List Value) : Steps.Within R (c.answer call this arguments) := by
  refine h.bind h.get fun s => ?_
  split
  · exact h.askHook hcall _ this arguments
  · exact h.pure _

end Keeps

namespace Keeps

variable {m : Module} {R : Machine → Machine → Prop} (h : Keeps m R)
include h

theorem invokeWith {call : Call} (hcall : Calls R call) : Calls R (invokeWith m call) := by
  intro i this arguments
  unfold Action.invokeWith
  cases hd : m.method? i with
  | none => exact h.throw _
  | some d =>
    refine h.bind h.get fun s => ?_
    dsimp only
    split
    · exact h.fault _
    · refine h.bind (fun s => h.know s i d hd) fun _ => h.bind (h.record _) fun _ => ?_
      refine h.bind (answer (c := ⟨m, d⟩) h hcall this arguments) fun answered => ?_
      split
      · exact h.pure _
      · exact runBody (c := ⟨m, d⟩) h hcall this arguments

theorem invokeAt (bound : Nat) : Calls R (invokeAt m bound) := by
  induction bound with
  | zero => exact fun _ _ _ => h.fault _
  | succ bound ih => exact h.invokeWith ih

theorem invoke : Calls R (invoke m) := by
  intro i this arguments s
  rw [invoke_run]
  exact h.invokeAt _ i this arguments s

theorem request (q : Request) : Steps.Within R (q.run m) := by
  cases q with
  | invoke i this arguments => exact h.invoke i this arguments
  | construct i arguments => exact h.construct h.invoke i arguments
  | invokeDelegate r arguments => exact h.bind (h.invokeDelegate h.invoke r arguments) fun _ => h.pure _
  | getProperty r p =>
    simp only [Request.run, Action.getProperty]
    split
    · exact h.invoke _ _ _
    · exact h.throw _
  | setProperty r p v =>
    refine h.bind ?_ fun _ => h.pure _
    unfold Action.setProperty
    split
    · exact h.map (h.invoke _ _ _) _
    · exact h.throw _

end Keeps

end Action

namespace Machine

variable {m : Module} {s : Machine} {i : MethodId} {d : Method}

/-- Known tokens stand for methods that have them. -/
def Learned (m : Module) (s : Machine) : Prop :=
  ∀ k i, s.functions.get? k = some i → ∃ d, m.method? i = some d ∧ d.token = k

theorem Learned.insert (hs : s.Learned m) (hd : m.method? i = some d) :
    ({ s with functions := s.functions.insert d.token i } : Machine).Learned m := by
  intro k j hj
  rw [TokenMap.get?_insert] at hj
  split at hj
  · rename_i hk
    obtain rfl := Option.some.inj hj
    exact ⟨d, hd, hk.symm⟩
  · exact hs k j hj

theorem keeps_learned (m : Module) : Action.Keeps m fun s t => s.Learned m → t.Learned m where
  refl _ := id
  trans h h' hs := h' (h hs)
  heap _ _ := id
  trace _ _ := id
  executed _ _ := id
  depth _ _ := id
  know s i d hd hs := by
    unfold TokenMap.insertNew
    split
    · exact hs
    · exact hs.insert hd
  load s i d hd hs := hs.insert hd

/-- Known tokens go on standing for methods that have them, whatever the machine is asked for. -/
theorem Learned.run (hs : s.Learned m) (q : Request) : ((q.run m).run.run s).2.Learned m :=
  (keeps_learned m).request q s hs

end Machine

end SetterLoom
