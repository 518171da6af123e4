import SetterLoom.Proofs.Machine.Calling
import SetterLoom.Proofs.Machine.Later
import SetterLoom.Proofs.Machine.Operations

/-!
# Calls with a known result

Woven code calls getters that load a field, the constructor of the event arguments, and the invoker, for
which the machine answers. Each of these calls does one thing that can be written down. Announcing a change
of an object without handlers adds one event to the trace.

* `runs_callvirt`: a virtual call in front of other operations.
* `getter_run`, `constructor_run`, `raiser_run`: the three calls.
-/

namespace SetterLoom
set_option autoImplicit false

namespace Module

/-- The method that a virtual call of a method runs on an object of the given type. -/
def reached (m : Module) (type : Token) (i : MethodId) (d : Method) : MethodId :=
  match m.registry.get? type with
  | none => i
  | some t =>
    ((m.methodInLine? t d.name).filter fun j =>
      (m.method? j).any fun c => c.params.length == d.params.length && !c.isStatic).getD i

/-- The field behind the changed event of objects of the given type. -/
def eventField? (m : Module) (type : Token) : Option Field :=
  (m.registry.get? type).bind (m.fieldInLine? · Surface.changedEvent)

end Module

namespace Machine

/-- The state in which a method answers: its token is known and its call is on the trace. -/
def entered (s : Machine) (c : Site) (i : MethodId) : Machine :=
  { s with
    functions := s.functions.insertNew c.method.token i
    trace := s.trace.push (.called c.name) }

/-- The object has fields, and no delegate is stored behind its changed event. -/
def Unheard (m : Module) (r : HeapRef) (s : Machine) : Prop :=
  ∃ type fields, s.heap.get? r = some (.object type fields)
    ∧ ∀ f, m.eventField? type = some f → ∀ q, fields.get? f.token ≠ some (.ref q)

end Machine

namespace Action

variable {m : Module} {call : Call} {s t : Machine} {r : HeapRef} {type : Token}
  {fields : TokenMap Value} {v : Value}

/-! ## Calls -/

theorem runtimeType_run {o : HeapObject} (hr : s.heap.get? r = some o) :
    (runtimeType m r).run.run s = (.ok (o.type?.bind m.registry.get?), s) := by
  unfold runtimeType
  rw [bind_run, Site.heap_typeOf_run hr]
  rfl

theorem dispatch_run (hr : s.heap.get? r = some (.object type fields)) (i : MethodId)
    (d : Method) : (dispatch m r i d).run.run s = (.ok (m.reached type i d), s) := by
  unfold dispatch
  rw [bind_run, runtimeType_run hr]
  unfold Module.reached
  simp only [HeapObject.type?, Option.bind_some]
  cases m.registry.get? type <;> rfl

theorem invokeWith_entered {i : MethodId} {d : Method} (hd : m.method? i = some d)
    (this : Option Value) (arguments : List Value) (hdepth : s.depth < maxDepth) :
    (invokeWith m call i this arguments).run.run s
      = ((⟨m, d⟩ : Site).answer call this arguments >>= fun answer =>
          match answer with
          | some v => pure v
          | none => (⟨m, d⟩ : Site).runBody call this arguments).run.run (s.entered ⟨m, d⟩ i) := by
  unfold invokeWith
  simp only [hd]
  rw [bind_run]
  show (ite (maxDepth ≤ s.depth) _ _ : Action Value).run.run s = _
  rw [if_neg (Nat.not_le.mpr hdepth)]
  rfl

theorem invokeWith_deep {i : MethodId} {d : Method} (hd : m.method? i = some d)
    (this : Option Value) (arguments : List Value) (hdepth : maxDepth ≤ s.depth) :
    (invokeWith m call i this arguments).run.run s
      = (.error (.emulation (.callDepth (⟨m, d⟩ : Site).name)), s) := by
  unfold invokeWith
  simp only [hd]
  rw [bind_run]
  show (ite (maxDepth ≤ s.depth) _ _ : Action Value).run.run s = _
  rw [if_pos hdepth]
  rfl

theorem invokeWith_run {i : MethodId} {d : Method} (hd : m.method? i = some d)
    (this : Option Value) (arguments : List Value) :
    (invokeWith m call i this arguments).run.run s = (.ok v, t)
      ↔ s.depth < maxDepth
        ∧ ((⟨m, d⟩ : Site).answer call this arguments >>= fun answer =>
            match answer with
            | some v => pure v
            | none => (⟨m, d⟩ : Site).runBody call this arguments).run.run (s.entered ⟨m, d⟩ i)
          = (.ok v, t) := by
  by_cases hdepth : s.depth < maxDepth
  · rw [invokeWith_entered hd _ _ hdepth]
    exact ⟨fun h => ⟨hdepth, h⟩, fun h => h.2⟩
  · refine ⟨fun h => ?_, fun h => absurd h.1 hdepth⟩
    rw [invokeWith_deep hd _ _ (Nat.le_of_not_lt hdepth)] at h
    cases (Prod.mk.inj h).1

theorem answer_passed {c : Site} (hhook : s.hooks.find? c.callName = none) (this : Option Value)
    (arguments : List Value) : (c.answer call this arguments).run.run s = (.ok none, s) := by
  have hget : (get : Action Machine).run.run s = (.ok s, s) := rfl
  unfold Site.answer
  rw [bind_run, hget]
  dsimp only
  rw [hhook]
  rfl

/-- A call that no hook fits runs the body of the method. -/
theorem invokeWith_passed {i : MethodId} {d : Method} (hd : m.method? i = some d)
    (hhook : s.hooks.find? (⟨m, d⟩ : Site).callName = none) (this : Option Value)
    (arguments : List Value) (hdepth : s.depth < maxDepth) :
    (invokeWith m call i this arguments).run.run s
      = ((⟨m, d⟩ : Site).runBody call this arguments).run.run (s.entered ⟨m, d⟩ i) := by
  have hhook' : (s.entered ⟨m, d⟩ i).hooks.find? (⟨m, d⟩ : Site).callName = none := hhook
  rw [invokeWith_entered hd _ _ hdepth, bind_run, answer_passed hhook']

theorem invokeWith_body {i : MethodId} {d : Method} (hd : m.method? i = some d)
    (hhook : s.hooks.find? (⟨m, d⟩ : Site).callName = none) (this : Option Value)
    (arguments : List Value) :
    (invokeWith m call i this arguments).run.run s = (.ok v, t)
      ↔ s.depth < maxDepth
        ∧ ((⟨m, d⟩ : Site).runBody call this arguments).run.run (s.entered ⟨m, d⟩ i)
          = (.ok v, t) := by
  have hhook' : (s.entered ⟨m, d⟩ i).hooks.find? (⟨m, d⟩ : Site).callName = none := hhook
  rw [invokeWith_run hd, bind_run, answer_passed hhook']

theorem invokeWith_member {i : MethodId} {d : Method} {h : Hook} {member : RuntimeMember}
    (hd : m.method? i = some d) (hbody : d.body = none)
    (hhook : s.hooks.find? (⟨m, d⟩ : Site).callName = some h) (haction : h.action = .runtime member)
    (this : Option Value) (arguments : List Value) (hdepth : s.depth < maxDepth) :
    (invokeWith m call i this arguments).run.run s
      = match (answerFor m call member d.name this arguments).run.run (s.entered ⟨m, d⟩ i) with
        | (.ok y, t) => (.ok (y.getD .void), t)
        | (.error e, t) => (.error (.runtimeMember h.name (⟨m, d⟩ : Site).name e), t) := by
  have hfind : (s.entered ⟨m, d⟩ i).hooks.find? (⟨m, d⟩ : Site).callName = some h := hhook
  have hget : (get : Action Machine).run.run (s.entered ⟨m, d⟩ i)
    = (.ok (s.entered ⟨m, d⟩ i), s.entered ⟨m, d⟩ i) := rfl
  rw [invokeWith_entered hd this arguments hdepth, bind_run]
  unfold Site.answer
  rw [bind_run, hget]
  dsimp only
  rw [hfind]
  unfold Site.askHook
  simp only [haction, hbody, Option.isSome_none, Bool.false_eq_true, if_false]
  rw [Likeness.tryCatch_run, bind_run]
  rcases (answerFor m call member d.name this arguments).run.run (s.entered ⟨m, d⟩ i) with ⟨_ | _, _⟩ <;> rfl

end Action

namespace Site

variable {c : Site} {call : Call} {f g h : Frame} {s t u : Machine} {ops : List Op} {r : HeapRef}
  {type : Token} {fields : TokenMap Value} {v : Value}

theorem runs_callOn {op : Op} {use : MethodUse} (hop : op = ⟨.callvirt, .method use⟩)
    {d : Method} (hd : c.module.method? use.method = some d) (hinstance : d.isStatic = false)
    {arguments : List Value} (hcount : arguments.length = d.params.length) {this : Value}
    (hf : f = { g.push this with stack := arguments.reverse ++ (g.push this).stack }) :
    c.Runs call (op :: ops) f s h u
      ↔ s.executed < s.limit ∧ ∃ v t,
        (c.callOn call .callvirt use.method d this arguments).run.run (s.spent 1) = (.ok v, t)
          ∧ c.Runs call ops (if d.returns.isSome then g.push v else g) t h u := by
  subst hop hf
  refine runs_cons_of_action (fun v => if d.returns.isSome then g.push v else g) ?_
  have hpop : c.popMany { g.push this with stack := arguments.reverse ++ (g.push this).stack }
      d.params.length = pure (arguments, g.push this) := by
    unfold popMany
    rw [← hcount, Frame.popMany?_eq_some (g.push this) arguments]
  show (c.callMethod call _ .callvirt use.method).run.run (s.spent 1) = _
  unfold callMethod
  simp only [hd, hpop, hinstance, Bool.false_eq_true, if_false, pure_bind]
  rfl

theorem runs_static {op : Op} {use : MethodUse} (hop : op = ⟨.call, .method use⟩)
    {d : Method} (hd : c.module.method? use.method = some d) (hstatic : d.isStatic = true)
    {arguments : List Value} (hcount : arguments.length = d.params.length)
    (hf : f = { g with stack := arguments.reverse ++ g.stack }) :
    c.Runs call (op :: ops) f s h u
      ↔ s.executed < s.limit ∧ ∃ v t,
        (call use.method none arguments).run.run (s.spent 1) = (.ok v, t)
          ∧ c.Runs call ops (if d.returns.isSome then g.push v else g) t h u := by
  subst hop hf
  refine runs_cons_of_action (fun v => if d.returns.isSome then g.push v else g) ?_
  have hpop : c.popMany { g with stack := arguments.reverse ++ g.stack } d.params.length
      = pure (arguments, g) := by
    unfold popMany
    rw [← hcount, Frame.popMany?_eq_some g arguments]
  show (c.callMethod call _ .call use.method).run.run (s.spent 1) = _
  unfold callMethod
  simp only [hd, hpop, hstatic, if_true, pure_bind]

theorem callOn_object (call : Call) (i : MethodId) (d : Method)
    (hr : s.heap.get? r = some (.object type fields)) (arguments : List Value) :
    (c.callOn call .callvirt i d (.ref r) arguments).run.run s
      = (call (c.module.reached type i d) (some (.ref r)) arguments).run.run s := by
  have hplain : (HeapObject.object type fields).isDelegate = false := rfl
  show (c.callOnObject call i d r arguments).run.run s = _
  unfold callOnObject
  rw [Action.bind_run, heap_get_run hr]
  simp only [hplain, Bool.and_false, Bool.false_eq_true, if_false]
  rw [Action.bind_run, Action.dispatch_run hr]

theorem runs_callvirt {op : Op} {use : MethodUse} (hop : op = ⟨.callvirt, .method use⟩)
    {d : Method} (hd : c.module.method? use.method = some d) (hinstance : d.isStatic = false)
    {arguments : List Value} (hcount : arguments.length = d.params.length)
    (hf : f = { g.push (.ref r) with stack := arguments.reverse ++ (g.push (.ref r)).stack })
    (hr : s.heap.get? r = some (.object type fields)) :
    c.Runs call (op :: ops) f s h u
      ↔ s.executed < s.limit ∧ ∃ v t,
        (call (c.module.reached type use.method d) (some (.ref r)) arguments).run.run (s.spent 1)
            = (.ok v, t)
          ∧ c.Runs call ops (if d.returns.isSome then g.push v else g) t h u := by
  rw [runs_callOn hop hd hinstance hcount hf,
    callOn_object call use.method d (show (s.spent 1).heap.get? r = _ from hr) arguments]

/-! ## Bodies without branches -/

variable {m : Module} {d : Method} {bound : Nat} {code : Stream} {body : Body}

theorem ends_straight (hcode : code.map (·.op) = ops ++ [.ret])
    (hops : ∀ op ∈ ops, op.Straight) :
    c.Ends call code idle 0 f s v t
      ↔ ∃ g u, c.Runs call ops f s g u ∧ c.Does call .ret g u (.done v) t := by
  have hat : ∀ k, k < ops.length → (code[0 + k]?).map (·.op) = ops[k]? := by
    intro k hk
    rw [Nat.zero_add, ← List.getElem?_map, hcode, List.getElem?_append_left hk]
  have hret : (code[0 + ops.length]?).map (·.op) = some .ret := by
    rw [Nat.zero_add, ← List.getElem?_map, hcode, List.getElem?_concat_length]
  obtain ⟨i, hi, hop⟩ := Option.map_eq_some_iff.mp hret
  constructor
  · intro hends
    obtain ⟨g, u, hruns, hrest⟩ := runs_of_ends hat hops hends
    have hdoes := hrest.of_ret hi (congrArg Op.code hop)
    rw [hop] at hdoes
    exact ⟨g, u, hruns, hdoes⟩
  · rintro ⟨g, u, hruns, hdoes⟩
    refine ends_of_runs hruns hat (fun _ _ _ => ⟨rfl, rfl⟩) (.done hi ?_)
    rw [hop]
    exact hdoes

theorem runBody_eq (call : Call) (hbody : d.body = some body) (hinstance : d.isStatic = false)
    (this : Value) (arguments : List Value) :
    ((⟨m, d⟩ : Site).runBody call (some this) arguments).run.run s
      = (let (result, x) := (⟨m, d⟩ : Site).run call body.code
          { arguments := this :: arguments, slots := (⟨m, d⟩ : Site).startSlots body }
          { s with depth := s.depth + 1 }
        (result, { x with depth := x.depth - 1 })) := by
  unfold runBody startFrame
  simp only [hbody, hinstance, Bool.false_eq_true, if_false, pure_bind]
  rfl

theorem ends_of_runBody (hbody : d.body = some body) (hinstance : d.isStatic = false)
    {this : Value} {arguments : List Value}
    (h : ((⟨m, d⟩ : Site).runBody call (some this) arguments).run.run s = (.ok v, t)) :
    ∃ x, (⟨m, d⟩ : Site).Ends call body.code idle 0
        { arguments := this :: arguments, slots := (⟨m, d⟩ : Site).startSlots body }
        { s with depth := s.depth + 1 } v x
      ∧ t = { x with depth := x.depth - 1 } := by
  rw [runBody_eq call hbody hinstance] at h
  cases hrun : (⟨m, d⟩ : Site).run call body.code
      { arguments := this :: arguments, slots := (⟨m, d⟩ : Site).startSlots body }
      { s with depth := s.depth + 1 } with
  | mk result x =>
    rw [hrun] at h
    obtain ⟨rfl, rfl⟩ := Prod.mk.inj h
    exact ⟨x, ends_of_runFrom hrun, rfl⟩

theorem runBody_ok_iff (hbody : d.body = some body) (hinstance : d.isStatic = false)
    {this : Value} {arguments : List Value} :
    ((⟨m, d⟩ : Site).runBody (Action.invokeAt m bound) (some this) arguments).run.run s
        = (.ok v, t)
      ↔ ∃ x, (⟨m, d⟩ : Site).Ends (Action.invokeAt m bound) body.code idle 0
          { arguments := this :: arguments, slots := (⟨m, d⟩ : Site).startSlots body }
          { s with depth := s.depth + 1 } v x
        ∧ t = { x with depth := x.depth - 1 } := by
  refine ⟨ends_of_runBody hbody hinstance, ?_⟩
  rintro ⟨x, hends, rfl⟩
  rw [runBody_eq _ hbody hinstance, run_ok_iff.mpr hends]

/-- A body without branches is run one instruction after the other. -/
theorem runBody_run (hbody : d.body = some body) (hinstance : d.isStatic = false)
    (hcode : body.code.map (·.op) = ops ++ [.ret]) (hops : ∀ op ∈ ops, op.Straight)
    (this : Value) (arguments : List Value) :
    ((⟨m, d⟩ : Site).runBody (Action.invokeAt m bound) (some this) arguments).run.run s
        = (.ok v, t)
      ↔ ∃ g u x, (⟨m, d⟩ : Site).Runs (Action.invokeAt m bound) ops
          { arguments := this :: arguments, slots := (⟨m, d⟩ : Site).startSlots body }
          { s with depth := s.depth + 1 } g u
        ∧ (⟨m, d⟩ : Site).Does (Action.invokeAt m bound) .ret g u (.done v) x
        ∧ t = { x with depth := x.depth - 1 } := by
  rw [runBody_ok_iff hbody hinstance]
  constructor
  · rintro ⟨x, hends, ht⟩
    obtain ⟨g, u, hruns, hdoes⟩ := (ends_straight hcode hops).mp hends
    exact ⟨g, u, x, hruns, hdoes, ht⟩
  · rintro ⟨g, u, x, hruns, hdoes, ht⟩
    exact ⟨x, (ends_straight hcode hops).mpr ⟨g, u, hruns, hdoes⟩, ht⟩

theorem does_ret_value (hresult : c.method.returns.isSome = true) {v' : Value} :
    c.Does call .ret (f.push v') s (.done v) t
      ↔ s.executed < s.limit ∧ v = v' ∧ t = s.spent 1 := by
  have hstep : (c.step call .ret (f.push v')).run.run (s.spent 1)
      = (.ok (.done v'), s.spent 1) := by
    show (c.returnTop (f.push v')).run.run (s.spent 1) = _
    unfold returnTop
    rw [if_pos hresult]
    rfl
  rw [does_iff hstep, Except.ok.injEq, Step.done.injEq, eq_comm (a := v'),
    eq_comm (a := s.spent 1)]

theorem does_ret_void (hresult : c.method.returns = none) :
    c.Does call .ret f s (.done v) t
      ↔ s.executed < s.limit ∧ v = .void ∧ t = s.spent 1 := by
  have hstep : (c.step call .ret f).run.run (s.spent 1) = (.ok (.done .void), s.spent 1) := by
    show (c.returnTop f).run.run (s.spent 1) = _
    unfold returnTop
    rw [hresult]
    rfl
  rw [does_iff hstep, Except.ok.injEq, Step.done.injEq, eq_comm (a := Value.void),
    eq_comm (a := s.spent 1)]

theorem straight_of_plain {op : Op} (hop : op.code = .ldarg ∨ op.code = .ldfld ∨ op.code = .stfld) :
    op.Straight := by
  rcases hop with hop | hop | hop <;> rw [Op.Straight, hop] <;> exact ⟨nofun, nofun, nofun, nofun⟩

end Site

/-! ## The getter -/

/-- The method is a getter that loads a field of its receiver. -/
structure Method.Loads (d : Method) (field : Field) : Prop where
  isInstance : d.isStatic = false
  hasResult : d.returns.isSome = true
  noParams : d.params = []
  code : ∃ body, d.body = some body
    ∧ body.code.map (·.op) = [.ldarg 0, .ldfld field] ++ [.ret]

theorem Action.getter_run {m : Module} {bound : Nat} {i : MethodId} {d : Method} {field : Field}
    {s t : Machine} {r : HeapRef} {type : Token} {fields : TokenMap Value} {v : Value}
    (hd : m.method? i = some d) (hloads : d.Loads field)
    (hhook : s.hooks.find? (⟨m, d⟩ : Site).callName = none)
    (hr : s.heap.get? r = some (.object type fields)) :
    (invokeAt m (bound + 1) i (some (.ref r)) []).run.run s = (.ok v, t)
      ↔ s.depth < maxDepth ∧ s.executed + 3 ≤ s.limit
        ∧ v = (⟨m, d⟩ : Site).fieldValue fields field ∧ t = (s.entered ⟨m, d⟩ i).spent 3 := by
  obtain ⟨body, hbody, hcode⟩ := hloads.code
  have hops : ∀ op ∈ [Op.ldarg 0, .ldfld field], op.Straight := by
    intro op hop
    refine Site.straight_of_plain ?_
    rcases List.mem_cons.mp hop with rfl | hop
    · exact .inl rfl
    · exact .inr (.inl (by rw [List.mem_singleton.mp hop]; rfl))
  rw [invokeAt, invokeWith_body hd hhook, Site.runBody_run hbody hloads.isInstance hcode hops]
  refine and_congr_right fun _ => ?_
  let start : Frame := { arguments := [.ref r], slots := (⟨m, d⟩ : Site).startSlots body }
  let down : Machine := { s.entered ⟨m, d⟩ i with depth := s.depth + 1 }
  have hfield : ((⟨m, d⟩ : Site).step (invokeAt m bound) (.ldfld field)
        (start.push (.ref r))).run.run ((down.spent 1).spent 1)
      = (.ok (.next (start.push ((⟨m, d⟩ : Site).fieldValue fields field))),
          (down.spent 1).spent 1) := Site.step_ldfld hr
  -- each operation leads to one state only, so what is left to find out is
  -- how many instructions there is room for
  constructor
  · rintro ⟨g, u, x, hruns, hdoes, rfl⟩
    obtain ⟨-, hrest⟩ := (Site.runs_plain (Site.plain_ldarg (v := .ref r) rfl)).mp hruns
    obtain ⟨-, hrest⟩ := (Site.runs_cons_of_step hfield).mp hrest
    obtain ⟨rfl, rfl⟩ := Site.runs_nil.mp hrest
    obtain ⟨hroom, rfl, rfl⟩ := (Site.does_ret_value hloads.hasResult).mp hdoes
    exact ⟨hroom, rfl, rfl⟩
  · rintro ⟨hroom, rfl, rfl⟩
    have hlimit : down.limit = s.limit := rfl
    have hexecuted : down.executed = s.executed := rfl
    refine ⟨_, _, _, (Site.runs_plain (Site.plain_ldarg (v := .ref r) rfl)).mpr ⟨?_,
      (Site.runs_cons_of_step hfield).mpr ⟨?_, .nil _ _⟩⟩,
      (Site.does_ret_value hloads.hasResult).mpr ⟨?_, rfl, rfl⟩, rfl⟩
    · show s.executed < s.limit
      omega
    · show s.executed + 1 < s.limit
      omega
    · show s.executed + 2 < s.limit
      omega

/-! ## The event arguments -/

/-- The method makes event arguments: it stores its argument in the field that holds the name. -/
structure Module.MakesArguments (m : Module) (i : MethodId) (d : Method) (type : TypeDef)
    (field : Field) : Prop where
  method : m.method? i = some d
  isInstance : d.isStatic = false
  noResult : d.returns = none
  oneParam : d.params.length = 1
  owner : ∃ t, d.owner = some t ∧ m.type? t = some type ∧ m.isDelegate t = false
  code : ∃ body, d.body = some body
    ∧ body.code.map (·.op) = [.ldarg 0, .ldarg 1, .stfld field] ++ [.ret]
  name : ∃ t, m.require Surface.eventArgs = .ok t
    ∧ (m.type? t).bind (·.field? Surface.nameField) = some field

namespace Action

variable {m : Module} {bound : Nat} {i : MethodId} {d : Method} {type : TypeDef} {field : Field}
  {s t : Machine} {v x : Value}

/-- The state after making event arguments with a name. -/
def named (m : Module) (i : MethodId) (d : Method) (type : TypeDef) (field : Field) (v : Value)
    (s : Machine) : Machine :=
  ({ s with
    heap := (s.heap.push (.object type.token .empty)).put s.heap.next field.token v }.entered
      ⟨m, d⟩ i).spent 4

private theorem constructor_call {r : HeapRef} (h : m.MakesArguments i d type field)
    (hhook : s.hooks.find? (⟨m, d⟩ : Site).callName = none)
    (hr : s.heap.get? r = some (.object type.token .empty)) :
    (invokeAt m (bound + 1) i (some (.ref r)) [v]).run.run s = (.ok x, t)
      ↔ s.depth < maxDepth ∧ s.executed + 4 ≤ s.limit ∧ x = .void
        ∧ t = ({ s with heap := s.heap.put r field.token v }.entered ⟨m, d⟩ i).spent 4 := by
  obtain ⟨body, hbody, hcode⟩ := h.code
  have hops : ∀ op ∈ [Op.ldarg 0, .ldarg 1, .stfld field], op.Straight := by
    intro op hop
    refine Site.straight_of_plain ?_
    rcases List.mem_cons.mp hop with rfl | hop
    · exact .inl rfl
    · rcases List.mem_cons.mp hop with rfl | hop
      · exact .inl rfl
      · exact .inr (.inr (by rw [List.mem_singleton.mp hop]; rfl))
  rw [invokeAt, invokeWith_body h.method hhook, Site.runBody_run hbody h.isInstance hcode hops]
  refine and_congr_right fun _ => ?_
  let start : Frame := { arguments := [.ref r, v], slots := (⟨m, d⟩ : Site).startSlots body }
  let down : Machine := { s.entered ⟨m, d⟩ i with depth := s.depth + 1 }
  have hstore := Site.step_stfld (c := ⟨m, d⟩) (invokeAt m bound) field
    (s := ((down.spent 1).spent 1).spent 1) (f := start) (v := v)
    (show (((down.spent 1).spent 1).spent 1).heap.get? r = _ from hr)
  constructor
  · rintro ⟨g, u, y, hruns, hdoes, rfl⟩
    obtain ⟨-, hrest⟩ := (Site.runs_plain (Site.plain_ldarg (v := .ref r) rfl)).mp hruns
    obtain ⟨-, hrest⟩ := (Site.runs_plain (Site.plain_ldarg (v := v) rfl)).mp hrest
    obtain ⟨-, hrest⟩ := (Site.runs_cons_of_step hstore).mp hrest
    obtain ⟨rfl, rfl⟩ := Site.runs_nil.mp hrest
    obtain ⟨hroom, rfl, rfl⟩ := (Site.does_ret_void h.noResult).mp hdoes
    exact ⟨hroom, rfl, rfl⟩
  · rintro ⟨hroom, rfl, rfl⟩
    refine ⟨_, _, _, (Site.runs_plain (Site.plain_ldarg (v := .ref r) rfl)).mpr ⟨?_,
      (Site.runs_plain (Site.plain_ldarg (v := v) rfl)).mpr ⟨?_,
      (Site.runs_cons_of_step hstore).mpr ⟨?_, .nil _ _⟩⟩⟩,
      (Site.does_ret_void h.noResult).mpr ⟨?_, rfl, rfl⟩, rfl⟩
    · show s.executed < s.limit
      omega
    · show s.executed + 1 < s.limit
      omega
    · show s.executed + 2 < s.limit
      omega
    · show s.executed + 3 < s.limit
      omega

/-- Making event arguments calls the constructor on a new object. -/
theorem construct_called (h : m.MakesArguments i d type field) (call : Call) :
    (construct m call i [v]).run.run s
      = (call i (some (.ref s.heap.next)) [v] >>= fun _ => pure (Value.ref s.heap.next)).run.run
          { s with heap := s.heap.push (.object type.token .empty) } := by
  obtain ⟨owner, howner, htype, hdelegate⟩ := h.owner
  have hconstructed : constructedType m i = pure (owner, type) := by
    unfold constructedType
    simp only [h.method, Option.bind_some, howner, htype, Option.map_some]
  unfold construct
  simp only [hconstructed, pure_bind, hdelegate, Bool.false_eq_true, if_false]
  rfl

theorem constructor_run (h : m.MakesArguments i d type field)
    (hhook : s.hooks.find? (⟨m, d⟩ : Site).callName = none) :
    (construct m (invokeAt m (bound + 1)) i [v]).run.run s = (.ok x, t)
      ↔ s.depth < maxDepth ∧ s.executed + 4 ≤ s.limit ∧ x = .ref s.heap.next
        ∧ t = named m i d type field v s := by
  let made : Machine := { s with heap := s.heap.push (.object type.token .empty) }
  have hcall : ∀ y u, (invokeAt m (bound + 1) i (some (.ref s.heap.next)) [v]).run.run made
      = (.ok y, u) ↔ _ := fun y u => constructor_call h hhook (s.heap.get?_push_new _)
  rw [construct_called h, bind_run]
  cases hrun : (invokeAt m (bound + 1) i (some (.ref s.heap.next)) [v]).run.run made with
  | mk result u =>
    cases result with
    | error e =>
      constructor
      · intro hok
        cases (Prod.mk.inj hok).1
      · rintro ⟨hdepth, hroom, -, -⟩
        have hok := (hcall .void _).mpr ⟨hdepth, hroom, rfl, rfl⟩
        rw [hrun] at hok
        cases (Prod.mk.inj hok).1
    | ok y =>
      obtain ⟨hdepth, hroom, rfl, rfl⟩ := (hcall y u).mp hrun
      constructor
      · intro hok
        obtain ⟨hx, rfl⟩ := Prod.mk.inj hok
        exact ⟨hdepth, hroom, (Except.ok.inj hx).symm, rfl⟩
      · rintro ⟨-, -, rfl, rfl⟩
        rfl

end Action

private theorem Site.step_newobj {c : Site} {call : Call} {i : MethodId} {d : Method} {type : TypeDef} {field : Field}
    {g : Frame} {s : Machine} {v : Value} (hmakes : c.module.MakesArguments i d type field) :
    (c.step call (.newobj i) (g.push v)).run.run s
      = (Action.construct c.module call i [v] >>= fun x => pure (Step.next (g.push x))).run.run s := by
  have hpop : c.popMany (g.push v) d.params.length = pure ([v], g) := by
    unfold popMany
    rw [hmakes.oneParam]
    rfl
  show (c.newObject call (g.push v) i).run.run s = _
  unfold newObject
  simp only [hmakes.method, hpop, pure_bind]

theorem Site.runs_newobj {c : Site} {bound : Nat} {i : MethodId} {d : Method} {type : TypeDef}
    {field : Field} {ops : List Op} {g h : Frame} {s u : Machine} {v : Value}
    (hmakes : c.module.MakesArguments i d type field)
    (hhook : s.hooks.find? (⟨c.module, d⟩ : Site).callName = none) :
    c.Runs (Action.invokeAt c.module (bound + 1)) (.newobj i :: ops) (g.push v) s h u
      ↔ s.depth < maxDepth ∧ s.executed + 5 ≤ s.limit
        ∧ c.Runs (Action.invokeAt c.module (bound + 1)) ops (g.push (.ref s.heap.next))
          (Action.named c.module i d type field v (s.spent 1)) h u := by
  rw [runs_cons_of_action g.push (step_newobj hmakes)]
  constructor
  · rintro ⟨-, x, t, hrun, hrest⟩
    obtain ⟨hdepth, hroom, rfl, rfl⟩ := (Action.constructor_run (s := s.spent 1) hmakes hhook).mp hrun
    refine ⟨hdepth, ?_, hrest⟩
    have hroom : s.executed + 1 + 4 ≤ s.limit := hroom
    omega
  · rintro ⟨hdepth, hroom, hrest⟩
    have hroom' : s.executed + 1 + 4 ≤ s.limit := by omega
    exact ⟨by omega, _, _,
      (Action.constructor_run (s := s.spent 1) hmakes hhook).mpr ⟨hdepth, hroom', rfl, rfl⟩, hrest⟩

theorem Site.not_runs_newobj_zero {c : Site} {i : MethodId} {d : Method} {type : TypeDef} {field : Field}
    {ops : List Op} {g h : Frame} {s u : Machine} {v : Value} (hmakes : c.module.MakesArguments i d type field) :
    ¬ c.Runs (Action.invokeAt c.module 0) (.newobj i :: ops) (g.push v) s h u := by
  rw [runs_cons_of_action g.push (step_newobj hmakes)]
  rintro ⟨-, x, t, hrun, -⟩
  rw [Action.construct_called hmakes, Action.bind_run] at hrun
  cases (Prod.mk.inj hrun).1

/-! ## Announcing a change -/

/-- The machine answers for the method by announcing a change. -/
structure Module.Raises (m : Module) (i : MethodId) (d : Method) (hooks : HookTable) : Prop where
  method : m.method? i = some d
  noBody : d.body = none
  hook : ∃ h, hooks.find? (⟨m, d⟩ : Site).callName = some h ∧ h.action = .runtime .raise

namespace Action

variable {m : Module} {call : Call} {i : MethodId} {d : Method} {s t : Machine} {r q : HeapRef}
  {type : Token} {fields : TokenMap Value} {v : Value}

theorem stringValue_run {text : String} (hq : s.heap.get? q = some (.string text)) :
    (stringValue (.ref q)).run.run s = (.ok (some text), s) := by
  have hread : (heap (·.getString q)).run.run s = (.ok text, s) := by
    rw [heap_run]
    unfold Heap.getString
    rw [Likeness.get_eq_ok.mpr hq]
    rfl
  show (heap (·.getString q) >>= fun text => pure (some text)).run.run s = _
  rw [bind_run, hread]
  rfl

theorem propertyName_string {text : String} (hq : s.heap.get? q = some (.string text)) :
    (propertyName m (.ref q)).run.run s = (.ok text, s) := by
  unfold propertyName
  dsimp only
  rw [bind_run, Site.heap_get_run hq]
  rfl

theorem propertyName_arguments {t : TypeId} {field : Field} {text : String}
    {fields : TokenMap Value} (hrequire : m.require Surface.eventArgs = .ok t)
    (hfield : (m.type? t).bind (·.field? Surface.nameField) = some field)
    (hr : s.heap.get? r = some (.object type fields))
    (hstored : fields.get? field.token = some (.ref q))
    (hq : s.heap.get? q = some (.string text)) :
    (propertyName m (.ref r)).run.run s = (.ok text, s) := by
  have ht (a : Action TypeId) (ha : a = nameInArguments.liftExcept (m.require Surface.eventArgs)) :
      a.run.run s = (.ok t, s) := by
    rw [ha, hrequire]
    rfl
  unfold propertyName
  dsimp only
  rw [bind_run, Site.heap_get_run hr]
  unfold nameInArguments
  dsimp only
  rw [bind_run, ht _ rfl]
  dsimp only
  rw [hfield]
  dsimp only
  have hnull : (fieldOrNull r field.token).run.run s = (.ok (.ref q), s) := by
    unfold fieldOrNull
    rw [bind_run, Site.heap_getField_run hr, hstored]
    rfl
  rw [bind_run, hnull]
  dsimp only
  rw [bind_run, stringValue_run hq]
  rfl

theorem eventField?_run {type : Token} {fields : TokenMap Value} (hr : s.heap.get? r = some (.object type fields)) :
    (eventField? m r).run.run s = (.ok (m.eventField? type), s) := by
  unfold eventField?
  rw [bind_run, runtimeType_run hr]
  rfl

theorem raiseEvent_run (h : s.Unheard m r) (property : String) :
    (raiseEvent m call r property).run.run s = (.ok (), s) := by
  obtain ⟨type, fields, hr, hnone⟩ := h
  unfold raiseEvent
  rw [bind_run, eventField?_run hr]
  cases hf : m.eventField? type with
  | none => rfl
  | some field =>
    dsimp only
    rw [bind_run, Site.heap_getField_run hr]
    cases hv : fields.get? field.token with
    | none => rfl
    | some v =>
      cases v with
      | ref q => exact absurd hv (hnone field hf q)
      | void | int | null | struct | address | function => rfl

theorem unheard_of_heap {m : Module} {s t : Machine} {r : HeapRef} (h : s.Unheard m r)
    (hheap : t.heap.get? r = s.heap.get? r) : t.Unheard m r := by
  obtain ⟨type, fields, hr, hnone⟩ := h
  exact ⟨type, fields, hheap.trans hr, hnone⟩

/-- The state in which the handlers are called. -/
def announced (m : Module) (i : MethodId) (d : Method) (r : HeapRef) (name : String)
    (before after : Option Value) (s : Machine) : Machine :=
  { s.entered ⟨m, d⟩ i with
    trace := (s.entered ⟨m, d⟩ i).trace.push (.notified r name before after) }

variable (call r) in
/-- A call of the invoker announces the change and calls the handlers. -/
theorem raiser_called (hraises : m.Raises i d s.hooks) (hdepth : s.depth < maxDepth)
    {arguments : List Value} {name : String} {before after : Option Value}
    (hannounced : ∀ u : Machine, u.heap = s.heap →
      (announcement m arguments).run.run u = (.ok (name, before, after), u)) :
    ∃ hook, (invokeWith m call i (some (.ref r)) arguments).run.run s
      = match (raiseEvent m call r name).run.run (announced m i d r name before after s) with
        | (.ok _, t) => (.ok .void, t)
        | (.error e, t) => (.error (.runtimeMember hook (⟨m, d⟩ : Site).name e), t) := by
  obtain ⟨h, hfind, haction⟩ := hraises.hook
  have hraise : (raise m call d.name (some (.ref r)) arguments).run.run (s.entered ⟨m, d⟩ i)
      = (raiseEvent m call r name >>= fun _ => pure none).run.run
        (announced m i d r name before after s) := by
    show (announcement m arguments >>= fun x => record (.notified r x.1 x.2.1 x.2.2) >>= fun _ =>
      raiseEvent m call r x.1 >>= fun _ => pure none).run.run (s.entered ⟨m, d⟩ i) = _
    rw [bind_run, hannounced (s.entered ⟨m, d⟩ i) rfl]
    rfl
  refine ⟨h.name, ?_⟩
  rw [invokeWith_member hraises.method hraises.noBody hfind haction _ _ hdepth]
  unfold answerFor
  rw [hraise, bind_run]
  rcases (raiseEvent m call r name).run.run (announced m i d r name before after s) with ⟨_ | _, _⟩ <;> rfl

/-- The call of the invoker on an object without handlers announces the change and nothing else. -/
theorem raiser_run (hraises : m.Raises i d s.hooks) (hunheard : s.Unheard m r)
    {arguments : List Value} {name : String} {before after : Option Value}
    (hannounced : ∀ u : Machine, u.heap = s.heap →
      (announcement m arguments).run.run u = (.ok (name, before, after), u)) :
    (invokeWith m call i (some (.ref r)) arguments).run.run s = (.ok v, t)
      ↔ s.depth < maxDepth ∧ v = .void
        ∧ t = { s.entered ⟨m, d⟩ i with
          trace := (s.entered ⟨m, d⟩ i).trace.push (.notified r name before after) } := by
  by_cases hdepth : s.depth < maxDepth
  · obtain ⟨hook, hcalled⟩ := raiser_called call r hraises hdepth hannounced
    have hunheard' : (announced m i d r name before after s).Unheard m r :=
      unheard_of_heap hunheard rfl
    rw [hcalled, raiseEvent_run hunheard']
    constructor
    · intro hok
      obtain ⟨hv, rfl⟩ := Prod.mk.inj hok
      exact ⟨hdepth, (Except.ok.inj hv).symm, rfl⟩
    · rintro ⟨-, rfl, rfl⟩
      rfl
  · rw [invokeWith_run hraises.method]
    exact ⟨fun h => absurd h.1 hdepth, fun h => absurd h.1 hdepth⟩

end Action

end SetterLoom
