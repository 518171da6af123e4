import SetterLoom.Proofs.Machine.Answered
import SetterLoom.Proofs.Weave.Woven

/-!
# What a subscription does

A subscription block looks at the value of the field. If it is null, nothing happens but the comparison
and the block is left; otherwise the accessor is called on the value, with a new handler that has the
receiver for its target.

* `comparer_run`, `step_newobj_handler`: comparing with null, and making a handler.
* `Skips.offers`: a run of the block.
-/

namespace SetterLoom
set_option autoImplicit false

/-- The machine answers for the method by comparing its two arguments. -/
structure Module.Compares (m : Module) (i : MethodId) (d : Method) (hooks : HookTable) : Prop where
  method : m.method? i = some d
  noBody : d.body = none
  isStatic : d.isStatic = true
  twoParams : d.params.length = 2
  hasResult : d.returns.isSome = true
  hook : ∃ h, hooks.find? (⟨m, d⟩ : Site).callName = some h ∧ h.action = .runtime .objectEquals

/-- The method makes handlers of the type: it is a constructor of a delegate. -/
structure Module.MakesHandlers (m : Module) (i : MethodId) (type : Token) : Prop where
  method : ∃ d owner t, m.method? i = some d ∧ d.params.length = 2 ∧ d.owner = some owner
    ∧ m.type? owner = some t ∧ m.isDelegate owner = true ∧ t.token = type

/-- The method can be called as an accessor of an event. -/
structure Method.Accesses (d : Method) : Prop where
  isInstance : d.isStatic = false
  oneParam : d.params.length = 1
  noResult : d.returns = none

/-- What a subscription block refers to. -/
structure Module.Subscribes (m : Module) (hooks : HookTable)
    (equals handlerConstructor handler accessor : MethodId) (comparer handles accesses : Method)
    (type : Token) : Prop where
  compares : m.Compares equals comparer hooks
  makes : m.MakesHandlers handlerConstructor type
  handler : m.method? handler = some handles
  accessor : m.method? accessor = some accesses
  shape : accesses.Accesses

namespace Action

variable {m : Module} {call : Call} {i : MethodId} {d : Method} {s t : Machine} {v x : Value}
  {type : Token} {bound : Nat}

/-- Comparing a value with null gives 1 for null and 0 for everything else. -/
theorem comparer_run (h : m.Compares i d s.hooks)
    (hrun : (invokeAt m bound i none [v, .null]).run.run s = (.ok x, t)) :
    x = .int (if v = .null then 1 else 0) ∧ t = s.entered ⟨m, d⟩ i := by
  cases bound with
  | zero => cases (Prod.mk.inj hrun).1
  | succ bound =>
    obtain ⟨hook, hfind, haction⟩ := h.hook
    have hequal : (valuesEqual v .null).run.run (s.entered ⟨m, d⟩ i)
        = (.ok (v == .null), s.entered ⟨m, d⟩ i) := by
      unfold valuesEqual
      cases v <;> rfl
    have hanswer : ((⟨m, d⟩ : Site).answer (invokeAt m bound) none [v, .null]).run.run
        (s.entered ⟨m, d⟩ i)
          = (.ok (some (.int (if v == .null then 1 else 0))), s.entered ⟨m, d⟩ i) := by
      have hfind' : (s.entered ⟨m, d⟩ i).hooks.find? (⟨m, d⟩ : Site).callName = some hook := hfind
      have hget : (get : Action Machine).run.run (s.entered ⟨m, d⟩ i)
        = (.ok (s.entered ⟨m, d⟩ i), s.entered ⟨m, d⟩ i) := rfl
      unfold Site.answer
      rw [bind_run, hget]
      dsimp only
      rw [hfind']
      unfold Site.askHook
      simp only [haction, h.noBody, Option.isSome_none, Bool.false_eq_true, if_false, answerFor,
        objectEquals]
      rw [Likeness.tryCatch_run, bind_run, bind_run, hequal]
      rfl
    rw [invokeAt, invokeWith_run h.method, bind_run, hanswer] at hrun
    obtain ⟨hx, rfl⟩ := Prod.mk.inj hrun.2
    refine ⟨?_, rfl⟩
    rw [← Except.ok.inj hx]
    simp only [beq_iff_eq]

end Action

namespace Machine

/-- The state in which a new handler is offered: it was made, and its method is known. -/
def offering (s : Machine) (type : Token) (r : HeapRef) (token : Token) (handler : MethodId) :
    Machine :=
  { s with
    heap := s.heap.push (.delegate type [⟨some r, token⟩])
    functions := s.functions.insert token handler }

end Machine

namespace Site

variable {c : Site} {call : Call} {f g h : Frame} {s t u : Machine} {op : Op} {ops : List Op}
  {r : HeapRef} {type : Token} {fields : TokenMap Value} {v : Value} {bound : Nat}

/-! ## The operations -/

theorem does_brtrue {l : Label} {way : Step} {n : Int32}
    (hdoes : c.Does call (.branch .brtrue l) (f.push (.int n)) s way t) :
    t = s.spent 1 ∧ way = if n = 0 then .next f else .jump l f := by
  have hstep : (c.step call (.branch .brtrue l) (f.push (.int n))).run.run (s.spent 1)
      = (.ok (if (n != 0) == true then .jump l f else .next f), s.spent 1) := by
    show (c.branchIf (f.push (.int n)) true l).run.run (s.spent 1) = _
    unfold branchIf
    rw [Action.bind_run]
    rfl
  obtain ⟨-, hway, rfl⟩ := (does_iff hstep).mp hdoes
  refine ⟨rfl, ?_⟩
  rw [← Except.ok.inj hway]
  by_cases hn : n = 0 <;> simp [hn]

theorem does_nop {way : Step} (hdoes : c.Does call .nop f s way t) :
    way = .next f ∧ t = s.spent 1 := by
  obtain ⟨-, hway, rfl⟩ := (does_iff (plain_nop (s.spent 1))).mp hdoes
  exact ⟨(Except.ok.inj hway).symm, rfl⟩

theorem step_ldftn {i : MethodId} {d : Method} (hd : c.module.method? i = some d) :
    (c.step call (.ldftn i) f).run.run s
      = (.ok (.next (f.push (.function d.token))),
          { s with functions := s.functions.insert d.token i }) := by
  show (c.loadFunction f i).run.run s = _
  unfold loadFunction
  simp only [hd]
  rfl

theorem step_newobj_handler {i : MethodId} (hmakes : c.module.MakesHandlers i type) {token : Token} :
    (c.step call (.newobj i) ((f.push (.ref r)).push (.function token))).run.run s
      = (.ok (.next (f.push (.ref s.heap.next))),
          { s with heap := s.heap.push (.delegate type [⟨some r, token⟩]) }) := by
  obtain ⟨d, owner, t, hd, hparams, howner, ht, hdelegate, rfl⟩ := hmakes.method
  have hpop : c.popMany ((f.push (.ref r)).push (.function token)) d.params.length
      = pure ([.ref r, .function token], f) := by
    unfold popMany
    rw [hparams]
    rfl
  have hconstructed : Action.constructedType c.module i = pure (owner, t) := by
    unfold Action.constructedType
    simp only [hd, Option.bind_some, howner, ht, Option.map_some]
  show (c.newObject call ((f.push (.ref r)).push (.function token)) i).run.run s = _
  unfold newObject Action.construct
  simp only [hd, hpop, hconstructed, pure_bind, hdelegate, if_true]
  rfl

theorem runs_field {field : Field} (hthis : f.arguments[0]? = some (.ref r))
    (hr : s.heap.get? r = some (.object type fields))
    (hruns : c.Runs call (.ldarg 0 :: .ldfld field :: ops) f s h u) :
    c.Runs call ops (f.push (c.fieldValue fields field)) (s.spent 2) h u := by
  obtain ⟨-, hrest⟩ := (runs_plain (plain_ldarg hthis)).mp hruns
  exact ((runs_cons_of_step (step_ldfld (s := (s.spent 1).spent 1) hr)).mp hrest).2

theorem runs_compare {i : MethodId} {d : Method} (h : c.module.Compares i d s.hooks)
    {k : Frame} (hruns : c.Runs (Action.invokeAt c.module bound) (.ldnull :: .call i :: ops)
      (f.push v) s k u) :
    c.Runs (Action.invokeAt c.module bound) ops (f.push (.int (if v = .null then 1 else 0)))
      ((s.spent 2).entered ⟨c.module, d⟩ i) k u := by
  obtain ⟨-, hrest⟩ := (runs_plain plain_ldnull).mp hruns
  have hcount : [v, .null].length = d.params.length := h.twoParams.symm
  obtain ⟨-, x, t, hcall, hrest⟩ := (runs_static (g := f)
    (rfl : Op.call i = ⟨.call, .method ⟨i, []⟩⟩) h.method h.isStatic hcount rfl).mp hrest
  obtain ⟨rfl, rfl⟩ := Action.comparer_run (s := (s.spent 1).spent 1) h hcall
  rw [if_pos h.hasResult] at hrest
  exact hrest

theorem runs_access {field : Field} {handlerConstructor handler accessor : MethodId}
    {handles accesses : Method} {handlerType : Token}
    (hmakes : c.module.MakesHandlers handlerConstructor handlerType)
    (hhandler : c.module.method? handler = some handles)
    (haccessor : c.module.method? accessor = some accesses) (hshape : accesses.Accesses)
    (hthis : f.arguments[0]? = some (.ref r)) (hr : s.heap.get? r = some (.object type fields))
    (hruns : c.Runs call (BlockContext.accessOps field handlerConstructor handler accessor) f s g u) :
    g = f ∧ ∃ x, (c.callOn call .callvirt accessor accesses (c.fieldValue fields field)
        [.ref s.heap.next]).run.run ((s.offering handlerType r handles.token handler).spent 6)
      = (.ok x, u) := by
  have hloaded := runs_field hthis hr hruns
  obtain ⟨-, hthis'⟩ := (runs_plain (plain_ldarg (v := .ref r) hthis)).mp hloaded
  obtain ⟨-, hpointer⟩ := (runs_cons_of_step (step_ldftn hhandler)).mp hthis'
  obtain ⟨-, hmade⟩ := (runs_cons_of_step (step_newobj_handler hmakes)).mp hpointer
  have hcount : [Value.ref s.heap.next].length = accesses.params.length := hshape.oneParam.symm
  obtain ⟨-, x, t, hcall, hrest⟩ := (runs_callOn (g := f)
    (rfl : Op.callvirt accessor = ⟨.callvirt, .method ⟨accessor, []⟩⟩) haccessor hshape.isInstance
    hcount rfl).mp hmade
  rw [hshape.noResult] at hrest
  obtain ⟨rfl, rfl⟩ := runs_nil.mp hrest
  exact ⟨rfl, x, hcall⟩

/-! ## The block -/

/-- The accessor was called on the value of the receiver's field with a new handler, unless the value is
null; before that, the value was compared with null. -/
inductive Offers (c : Site) (call : Call) (equals handler accessor : MethodId)
    (comparer handles accesses : Method) (handlerType : Token) (field : Field) (r : HeapRef)
    (s : Machine) (u : Machine) : Prop
  | nothing {type : Token} {fields : TokenMap Value}
    (object : s.heap.get? r = some (.object type fields))
    (null : c.fieldValue fields field = .null)
    (compared : u = (s.entered ⟨c.module, comparer⟩ equals).spent 6)
  | handler {type : Token} {fields : TokenMap Value} {x : Value} {t : Machine}
    (object : s.heap.get? r = some (.object type fields))
    (present : c.fieldValue fields field ≠ .null)
    (called : (c.callOn call .callvirt accessor accesses (c.fieldValue fields field)
        [.ref s.heap.next]).run.run
          (((s.entered ⟨c.module, comparer⟩ equals).offering handlerType r handles.token
            handler).spent 11) = (.ok x, t))
    (left : u = t.spent 1)

theorem Skips.offers {ctx : BlockContext} {field : Field} {last : Label}
    {equals handlerConstructor handler accessor : MethodId} {comparer handles accesses : Method}
    {handlerType : Token}
    (hskips : c.Skips (Action.invokeAt c.module bound) (ctx.testOps field equals) last
      (BlockContext.accessOps field handlerConstructor handler accessor) f s g u)
    (hsubscribes : c.module.Subscribes s.hooks equals handlerConstructor handler accessor comparer
      handles accesses handlerType)
    (hreference : (ctx.module.type? field.type).any (·.isValue) = false)
    (hthis : f.arguments[0]? = some (.ref r)) (hr : s.heap.get? r = some (.object type fields)) :
    g = f ∧ c.Offers (Action.invokeAt c.module bound) equals handler accessor comparer handles
      accesses handlerType field r s u := by
  have htested : ∀ {h t}, c.Runs (Action.invokeAt c.module bound) (ctx.testOps field equals) f s h t →
      h = f.push (.int (if c.fieldValue fields field = .null then 1 else 0))
        ∧ t = (s.entered ⟨c.module, comparer⟩ equals).spent 4 := by
    intro h t hruns
    unfold BlockContext.testOps at hruns
    simp only [hreference, Bool.false_eq_true, if_false, List.append_nil] at hruns
    have hcompared := runs_compare (s := s.spent 2) hsubscribes.compares (runs_field hthis hr hruns)
    exact runs_nil.mp hcompared
  -- the branch is taken exactly if the field holds null, and then nothing else is run
  cases hskips with
  | past htest hbranch hnop =>
    obtain ⟨rfl, rfl⟩ := htested htest
    obtain ⟨rfl, hway⟩ := does_brtrue hbranch
    have hnull : c.fieldValue fields field = .null := by
      by_contra hne
      rw [if_neg hne, if_pos rfl] at hway
      cases hway
    rw [hnull] at hway
    cases hway
    obtain ⟨hway, rfl⟩ := does_nop hnop
    cases hway
    exact ⟨rfl, .nothing hr hnull rfl⟩
  | through htest hbranch hinner hnop =>
    obtain ⟨rfl, rfl⟩ := htested htest
    obtain ⟨rfl, hway⟩ := does_brtrue hbranch
    have hpresent : c.fieldValue fields field ≠ .null := by
      intro hnull
      rw [hnull] at hway
      cases hway
    rw [if_neg hpresent, if_pos rfl] at hway
    cases hway
    obtain ⟨rfl, x, hcall⟩ := runs_access
      (s := ((s.entered ⟨c.module, comparer⟩ equals).spent 4).spent 1) hsubscribes.makes
      hsubscribes.handler hsubscribes.accessor hsubscribes.shape hthis hr hinner
    obtain ⟨hway, rfl⟩ := does_nop hnop
    cases hway
    exact ⟨rfl, .handler hr hpresent hcall rfl⟩

end Site

end SetterLoom
