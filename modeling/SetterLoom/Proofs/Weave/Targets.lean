import SetterLoom.Proofs.Weave.Kinds

/-!
# How often a name is announced

A store announces the dependents of its property and then the property itself, each name once. The names of the
dependents are made distinct before the property is put behind them, so the property is announced twice where it
depends on itself. The blocks and the handler go through the same list: no other name comes twice in any of
them.

* `PropertyPlan.targetNames_eq`, `PropertyPlan.nodup_targetNames_iff`: the names of the targets.
* `BlockContext.serves_changeOps`, `BlockContext.Handles.announcedNames_eq`: what the code goes through.
* `Weaving.setter_announces`: both for the setter that is woven.
* `Weaving.announces_itself_twice`: a property among its own dependents.
-/

namespace SetterLoom
set_option autoImplicit false

/-! ## The names of the targets -/

namespace PropertyPlan

variable {plan : PropertyPlan}

/-- The name of the property. -/
def ownName (plan : PropertyPlan) : String := plan.property.name

/-- The names of the dependents as they are listed. -/
def dependentNames (plan : PropertyPlan) : List String := plan.dependents.map (·.name)

/-- The names of the targets. -/
def targetNames (plan : PropertyPlan) : List String := plan.targets.map (·.name)

/-- The names that are to be announced: each once, and that of the property last. -/
def meantNames (plan : PropertyPlan) : List String :=
  (plan.dependentNames.filter (· != plan.ownName)).eraseDups ++ [plan.ownName]

theorem names_distinctFrom (listed : List String) (ps : List Property) :
    (distinctFrom listed ps).map (·.name)
      = ((ps.map (·.name)).filter fun name => !listed.contains name).eraseDups := by
  induction ps generalizing listed with
  | nil => rfl
  | cons p rest ih =>
    rw [distinctFrom, List.map_cons]
    by_cases hlisted : listed.contains p.name = true
    · rw [if_pos hlisted, ih, List.filter_cons_of_neg (by simpa using hlisted)]
    · rw [if_neg hlisted, List.map_cons, ih, List.filter_cons_of_pos (by simpa using hlisted),
        List.eraseDups_cons, List.filter_filter]
      congr 3
      funext name
      rw [List.contains_cons, Bool.not_or]

theorem names_distinctDependents (plan : PropertyPlan) :
    plan.distinctDependents.map (·.name) = plan.dependentNames.eraseDups := by
  unfold distinctDependents dependentNames
  rw [names_distinctFrom]
  congr 1
  exact List.filter_eq_self.mpr fun _ _ => rfl

/-- The first occurrences of the dependents' names, and the own name behind them. -/
theorem targetNames_eq (plan : PropertyPlan) :
    plan.targetNames = plan.dependentNames.eraseDups ++ [plan.ownName] := by
  unfold targetNames targets
  rw [List.map_append, names_distinctDependents]
  rfl

theorem nodup_eraseDups_dependentNames (plan : PropertyPlan) : plan.dependentNames.eraseDups.Nodup := by
  rw [← names_distinctDependents]
  exact plan.nodup_distinctNames

theorem count_targetNames (plan : PropertyPlan) (name : String) :
    plan.targetNames.count name
      = (if name ∈ plan.dependentNames then 1 else 0) + if name = plan.ownName then 1 else 0 := by
  rw [targetNames_eq, List.count_append, (nodup_eraseDups_dependentNames plan).count, List.count_singleton]
  simp only [List.mem_eraseDups, beq_iff_eq, eq_comm (a := plan.ownName)]

theorem nodup_targetNames_iff : plan.targetNames.Nodup ↔ plan.ownName ∉ plan.dependentNames := by
  rw [targetNames_eq, ← List.concat_eq_append, List.nodup_concat, List.mem_eraseDups]
  exact and_iff_left (nodup_eraseDups_dependentNames plan)

/-- The targets are the ones that are meant exactly if the property is not among its dependents. -/
theorem targetNames_eq_meantNames_iff :
    plan.targetNames = plan.meantNames ↔ plan.ownName ∉ plan.dependentNames := by
  constructor
  · intro h hmem
    have hcount := count_targetNames plan plan.ownName
    rw [if_pos hmem, if_pos rfl, h, meantNames, List.count_append, List.count_singleton_self] at hcount
    have habsent : plan.ownName ∉ (plan.dependentNames.filter (· != plan.ownName)).eraseDups := by
      simp [List.mem_eraseDups]
    rw [List.count_eq_zero_of_not_mem habsent] at hcount
    omega
  · intro hnot
    rw [targetNames_eq, meantNames, List.filter_eq_self.mpr]
    intro name hname
    rw [bne_iff_ne]
    rintro rfl
    exact hnot hname

theorem count_filter_announces (names : List String) (name : String) :
    (names.filter fun name => !plan.announces name).count name
      = if plan.announces name then 0 else names.count name := by
  cases hannounced : plan.announces name with
  | true => exact List.count_eq_zero_of_not_mem fun hmem => by simp [hannounced] at hmem
  | false => exact List.count_filter (by simp [hannounced])

end PropertyPlan

/-! ## The names in the code -/

/-- The text that an operation pushes. -/
def Op.text? (op : Op) : Option String :=
  match op.code, op.operand with
  | .ldstr, .string text => some text
  | _, _ => none

/-- The names that woven code announces, in order: it pushes no other texts. -/
def announcedNames (ops : List Op) : List String := ops.filterMap Op.text?

@[simp] theorem announcedNames_append (ops ops' : List Op) :
    announcedNames (ops ++ ops') = announcedNames ops ++ announcedNames ops' :=
  List.filterMap_append

@[simp] theorem announcedNames_nil : announcedNames [] = [] := rfl

namespace BlockContext

variable {ctx : BlockContext} {called : List String} {target : Property} {before : String → Bool → UInt16}
  {ops : List Op}

theorem announcedNames_readOps (boxed : Bool) (slot : UInt16) :
    announcedNames (ctx.readOps target boxed slot) = [] := by
  unfold readOps
  cases target.getter with
  | none => dsimp only; split <;> rfl
  | some getter => dsimp only; split <;> rfl

theorem announcedNames_announceOps (after : UInt16) :
    announcedNames (ctx.announceOps target before after) = [target.name] := by
  have hvalue : announcedNames (ctx.valueOps target after) = [] := by
    unfold valueOps
    cases ctx.type.invoker.valueForm? with
    | none => rfl
    | some boxed => exact announcedNames_readOps boxed after
  have hraise : ∀ slot slot', announcedNames (ctx.raiseOps target slot slot') = [target.name] := by
    intro slot slot'
    obtain ⟨types, hop⟩ := ctx.callOp_eq ctx.type.invoker.method target
    unfold raiseOps
    rw [hop]
    cases ctx.type.invoker <;> rfl
  rw [announceOps_eq, announcedNames_append, hvalue, hraise]
  rfl

theorem announcedNames_hookOps (hook : ChangeHook) (after : UInt16) :
    announcedNames (ctx.hookOps target hook before after) = [] := by
  cases hook with
  | noArguments i => rfl
  | beforeAfter i =>
    unfold hookOps
    rw [announcedNames_append, announcedNames_readOps]
    rfl

theorem announcedNames_dirtyFlagOps (ctx : BlockContext) : announcedNames ctx.dirtyFlagOps = [] := by
  unfold dirtyFlagOps
  split <;> rfl

theorem announcedNames_targetOps (after : AfterSlots) :
    announcedNames (ctx.targetOps called before target after)
      = [target.name].filter fun name => !ctx.property.announces name := by
  have hhook : announcedNames
      ((ctx.hookFor? called target).elim [] (ctx.hookOps target · before after.hook)) = [] := by
    cases ctx.hookFor? called target with
    | none => rfl
    | some hook => exact announcedNames_hookOps hook after.hook
  unfold targetOps
  rw [announcedNames_append, hhook, List.nil_append, List.filter_singleton]
  cases ctx.property.announces target.name with
  | true => rfl
  | false => exact announcedNames_announceOps after.call

/-- The code for the target: the call of its hook, if there is one to call, and then the announcement, unless
the setter makes it already. -/
def ServesTarget (ctx : BlockContext) (called : List String) (target : Property) (code : List Op) : Prop :=
  ∃ before after, code = ctx.targetOps called before target after

/-- The names whose hooks are called, in order. -/
def hookedNames (ctx : BlockContext) (called : List String) : List String :=
  (ctx.property.targets.filter fun t => (ctx.hookFor? called t).isSome).map (·.name)

/-- The code behind a store: it goes through the targets one after the other, and announces those that the
setter does not announce by itself. -/
structure Serves (ctx : BlockContext) (called : List String) (ops : List Op) : Prop where
  parts : ∃ parts, ops = ctx.dirtyFlagOps ++ parts.flatten
    ∧ List.Forall₂ (ctx.ServesTarget called) ctx.property.targets parts
  announced : announcedNames ops
    = ctx.property.targetNames.filter fun name => !ctx.property.announces name

theorem serves_changeOps {after : List AfterSlots} (hlength : after.length = ctx.property.targets.length) :
    ctx.Serves called (ctx.changeOps called before after) := by
  -- for every list of targets with a slot for each
  have hparts : ∀ (targets : List Property) (after : List AfterSlots), after.length = targets.length →
      (∃ parts, ctx.targetsOps called before targets after = parts.flatten
        ∧ List.Forall₂ (ctx.ServesTarget called) targets parts)
      ∧ announcedNames (ctx.targetsOps called before targets after)
        = (targets.map (·.name)).filter fun name => !ctx.property.announces name := by
    intro targets
    induction targets with
    | nil => exact fun _ _ => ⟨⟨[], rfl, .nil⟩, rfl⟩
    | cons t rest ih =>
      intro after hlength
      obtain ⟨slots, more, rfl⟩ := List.exists_cons_of_length_eq_add_one hlength
      obtain ⟨⟨parts, hcode, hserved⟩, hnames⟩ := ih more (Nat.succ.inj hlength)
      have hcons : ctx.targetsOps called before (t :: rest) (slots :: more)
          = ctx.targetOps called before t slots ++ ctx.targetsOps called before rest more := rfl
      refine ⟨⟨ctx.targetOps called before t slots :: parts, ?_, .cons ⟨before, slots, rfl⟩ hserved⟩, ?_⟩
      · rw [hcons, hcode, List.flatten_cons]
      · rw [hcons, announcedNames_append, announcedNames_targetOps, hnames, ← List.filter_append]
        rfl
  obtain ⟨⟨parts, hcode, hserved⟩, hnames⟩ := hparts ctx.property.targets after hlength
  refine ⟨⟨parts, ?_, hserved⟩, ?_⟩
  · unfold changeOps
    rw [hcode]
  · unfold changeOps
    rw [announcedNames_append, announcedNames_dirtyFlagOps, hnames]
    rfl

theorem hookFor?_of_name {target' : Property} (h : target.name = target'.name) :
    ctx.hookFor? called target = ctx.hookFor? called target' := by
  unfold hookFor?
  rw [h]

theorem count_hookedNames (target : Property) :
    (ctx.hookedNames called).count target.name
      = if (ctx.hookFor? called target).isSome then ctx.property.targetNames.count target.name else 0 := by
  unfold hookedNames PropertyPlan.targetNames
  induction ctx.property.targets with
  | nil => simp
  | cons t rest ih =>
    rw [List.map_cons, List.count_cons, List.filter_cons]
    -- the hook depends on the name alone, so targets of one name have it all or none has
    by_cases hname : t.name = target.name
    · rw [hookFor?_of_name hname]
      cases hhook : (ctx.hookFor? called target).isSome with
      | false =>
        rw [hhook] at ih
        exact ih
      | true =>
        rw [hhook] at ih
        simp only [if_true, List.map_cons, List.count_cons] at ih ⊢
        rw [ih]
    · have hskip : (t.name == target.name) = false := beq_eq_false_iff_ne.mpr hname
      rw [hskip]
      cases (ctx.hookFor? called t).isSome with
      | false => exact ih
      | true =>
        simp only [if_true, List.map_cons, List.count_cons, hskip] at ih ⊢
        exact ih

theorem announcedNames_parts {targets : List Property} {parts : List (List Op)}
    (h : List.Forall₂ ctx.AnnouncesTarget targets parts) :
    announcedNames parts.flatten = targets.map (·.name) := by
  induction h with
  | nil => rfl
  | cons hpart _ ih =>
    obtain ⟨before, after, rfl⟩ := hpart
    rw [List.flatten_cons, announcedNames_append, announcedNames_announceOps, ih]
    rfl

theorem Subscribes.announcedNames_eq {field : Field} {handler accessor : MethodId} {block : List Instruction}
    (h : ctx.Subscribes field handler accessor block) : announcedNames (block.map (·.op)) = [] := by
  obtain ⟨equals, handlerConstructor, last, front, -, -, rfl, hops⟩ := h
  rw [List.map_append, hops, announcedNames_append]
  unfold subscriptionOps
  dsimp only
  split <;> rfl

theorem Handles.announcedNames_eq {d : Method} {body : Body} (h : ctx.Handles d) (hbody : d.body = some body) :
    announcedNames (body.code.map (·.op)) = ctx.property.targetNames := by
  obtain ⟨body', parts, hbody', hcode, hparts⟩ := h.code
  obtain rfl := Option.some.inj (hbody'.symm.trans hbody)
  rw [hcode, announcedNames_append, announcedNames_parts hparts]
  exact List.append_nil _

end BlockContext

/-- A block announces what its notification does: taking a handler back and giving one announce nothing. -/
theorem Layout.announcedNames_block {ctx : BlockContext} {subscription : Option (Field × Event × MethodId)}
    {called : List String} {anchors : List Nat} {before : String → Bool → UInt16}
    (l : Layout ctx subscription called anchors before) (code : Stream) (p : Nat) :
    announcedNames ((l.block code p).map (·.op))
      = if p ∈ anchors then announcedNames ((l.notification p).map (·.op)) else [] := by
  have hsilent : announcedNames (l.unsubscribe.map (·.op)) = []
      ∧ announcedNames (l.subscribe.map (·.op)) = [] := by
    cases subscription with
    | none =>
      have hunsubscribe : l.unsubscribe = [] := l.unsubscribe_ops
      have hsubscribe : l.subscribe = [] := l.subscribe_ops
      rw [hunsubscribe, hsubscribe]
      exact ⟨rfl, rfl⟩
    | some followed =>
      obtain ⟨field, event, handler⟩ := followed
      obtain ⟨remove, -, htaken⟩ : ∃ remove, event.remove = some remove
          ∧ ctx.Subscribes field handler remove l.unsubscribe := l.unsubscribe_ops
      obtain ⟨add, -, hgiven⟩ : ∃ add, event.add = some add
          ∧ ctx.Subscribes field handler add l.subscribe := l.subscribe_ops
      exact ⟨htaken.announcedNames_eq, hgiven.announcedNames_eq⟩
  unfold block
  rw [List.map_append, List.map_append, announcedNames_append, announcedNames_append]
  split <;> split <;> split <;> simp [hsilent]

namespace Weaving

variable {options : Options} {resolver : Resolver} {type : TypePlan} {plan : PropertyPlan} {w w' : Workpiece}
  {method : MethodId} {body : Body}

/-- The handler that is subscribed was declared with the module, and the edits of the setter leave it alone. -/
theorem declared_of_subscription {m : Module} {subscription : Option (Field × Event × MethodId)} {result : Body}
    {field : Field} {event : Event} {handler : MethodId} {code : Stream}
    (hsubscription : Subscription (⟨options, resolver, ·, type, plan⟩) w.module
      (followed? options type plan w code) subscription m)
    (hmodule : w'.module = { m.setBody method (some result) with serial := w'.module.serial })
    (hbody : (w.module.method? method).bind (·.body) = some body)
    (hsome : subscription = some (field, event, handler)) :
    (⟨options, resolver, w.module, type, plan⟩ : BlockContext).declareHandler = .ok (handler, m)
      ∧ w'.module.method? handler = m.method? handler := by
  cases hfollowed : followed? options type plan w code with
  | none =>
    rw [hfollowed] at hsubscription
    rw [hsubscription.1] at hsome
    cases hsome
  | some followed =>
    obtain ⟨field', event'⟩ := followed
    rw [hfollowed] at hsubscription
    obtain ⟨handler', hsome', hdeclare⟩ := hsubscription
    cases hsome'.symm.trans hsome
    obtain ⟨-, hnone, -⟩ := BlockContext.exists_declareHandler hdeclare
    have hne : method ≠ handler := by
      rintro rfl
      rw [hnone] at hbody
      cases hbody
    refine ⟨hdeclare, ?_⟩
    rw [hmodule]
    exact Module.method?_setBody_of_ne m hne _

/-- **How often a name is announced.** The targets of a property are the first occurrences of its dependents'
names, and then its own name. So no name comes twice, and the names are what they are meant to be, exactly if
the property is not among its own dependents, and its own name comes twice otherwise. A setter that is woven
announces the targets behind each store but for those it announces already, and calls the hooks of the targets
that have one, in one go through them; and the handler for changes inside the value announces all of them. -/
theorem setter_announces (plan : PropertyPlan) :
    (plan.targetNames = plan.dependentNames.eraseDups ++ [plan.ownName]
      ∧ (plan.targetNames = plan.meantNames ↔ plan.ownName ∉ plan.dependentNames)
      ∧ (plan.targetNames.Nodup ↔ plan.ownName ∉ plan.dependentNames)
      ∧ ∀ name, plan.targetNames.count name
        = (if name ∈ plan.dependentNames then 1 else 0) + if name = plan.ownName then 1 else 0)
    ∧ ∀ {options resolver type w w' woven method body}, plan.property.setter = some method →
      (w.module.method? method).bind (·.body) = some body →
      (setter options resolver type plan).run.run w = (.ok woven, w') →
      let called := (plan.targets.map (hookName ·.name)).filter (w.module.containsCallTo body.code)
      ∃ m subscription before result,
      ∃ l : Layout ⟨options, resolver, m, type, plan⟩ subscription called (plan.anchors body.code).1 before,
        let ctx : BlockContext := ⟨options, resolver, m, type, plan⟩
        (w'.module.method? method).bind (·.body) = some result ∧ result.code = l.weave body.code
          ∧ (∀ p ∈ (plan.anchors body.code).1, ctx.Serves called ((l.notification p).map (·.op))
            ∧ ∀ name, (announcedNames ((l.notification p).map (·.op))).count name
              = if plan.announces name then 0 else plan.targetNames.count name)
          ∧ (∀ target, (ctx.hookedNames called).count target.name
            = if (ctx.hookFor? called target).isSome then plan.targetNames.count target.name else 0)
          ∧ ∀ field event handler, subscription = some (field, event, handler) →
            ∃ d code, w'.module.method? handler = some d ∧ d.body = some code
              ∧ announcedNames (code.code.map (·.op)) = plan.targetNames := by
  refine ⟨⟨plan.targetNames_eq, PropertyPlan.targetNames_eq_meantNames_iff, PropertyPlan.nodup_targetNames_iff,
    plan.count_targetNames⟩, ?_⟩
  intro options resolver type w w' woven method body hsetter hbody hrun called
  obtain ⟨m, subscription, before, result, l, hsubscription, hresult, hmodule, hcode, -, -⟩ :=
    laidOut_setter hsetter hbody hrun
  refine ⟨m, subscription, before, result, l, hresult, hcode, fun p hp => ?_,
    BlockContext.count_hookedNames, fun field event handler hsome => ?_⟩
  · obtain ⟨after, hlength, hops⟩ := l.notification_ops p hp
    have hserves : BlockContext.Serves ⟨options, resolver, m, type, plan⟩ called
        ((l.notification p).map (·.op)) := hops ▸ BlockContext.serves_changeOps hlength
    refine ⟨hserves, fun name => ?_⟩
    rw [hserves.announced, PropertyPlan.count_filter_announces]
  · obtain ⟨hdeclare, hkept⟩ := declared_of_subscription hsubscription hmodule hbody hsome
    obtain ⟨-, -, d, -, hhandles, hmethods⟩ := BlockContext.exists_declareHandler hdeclare
    obtain ⟨code, -, hdbody, -⟩ := hhandles.code
    exact ⟨d, code, by rw [hkept, hmethods, if_pos rfl], hdbody, hhandles.announcedNames_eq hdbody⟩

/-- A setter with two stores announces its property once behind each of them. -/
theorem setter_announces_chain :
    Chain.property.targetNames.Nodup ∧ Chain.woven.1 = .ok ⟨[5, 8], 2, some ⟨5⟩⟩
      ∧ (Chain.woven.2.module.method? ⟨1⟩).bind (·.body) = some Chain.result
      ∧ ∀ p ∈ [5, 8], (announcedNames ((Chain.block p).map (·.op))).count "Next" = 1 := by
  obtain ⟨⟨-, -, hnodup, hcount⟩, hwoven⟩ := setter_announces Chain.property
  refine ⟨hnodup.mpr (by decide +kernel), by rw [Chain.woven_eq], Chain.result_eq, fun p hp => ?_⟩
  have hbody : (Chain.module.method? ⟨1⟩).bind (·.body) = some Chain.setNext := rfl
  obtain ⟨m, subscription, before, result, l, hresult, hcode, hblocks, -, -⟩ :=
    @hwoven {} Chain.resolver Chain.type ⟨Chain.module, {}⟩ Chain.woven.2 _ ⟨1⟩ Chain.setNext rfl hbody
      Chain.woven_eq
  rw [Chain.result_eq] at hresult
  obtain rfl : Chain.result = result := Option.some.inj hresult
  have hanchors : (Chain.property.anchors Chain.setNext.code).1 = [5, 8] := by decide +kernel
  have hp : p ∈ (Chain.property.anchors Chain.setNext.code).1 := hanchors ▸ hp
  obtain ⟨-, hblock⟩ := Chain.parts_eq l hcode
  rw [← hblock, l.announcedNames_block, if_pos hp, (hblocks p hp).2, hcount]
  decide +kernel

/-! ## A property among its own dependents -/

/-- The property is to be announced for itself. -/
def itself : PropertyPlan := { Chain.property with dependents := [Chain.property.property] }

/-- What weaving its setter does. -/
def wovenItself : Except Error WovenSetter × Workpiece :=
  (setter {} Chain.resolver Chain.type itself).run.run ⟨Chain.module, {}⟩

/-- The names that the code of a method announces. -/
def announcedBy (m : Module) (i : MethodId) : List String :=
  ((m.method? i).bind (·.body)).elim [] fun body => announcedNames (body.code.map (·.op))

/-- It is announced twice behind each of the two stores, and twice by the handler. -/
theorem announces_itself_twice :
    itself.meantNames = ["Next"] ∧ itself.targetNames = ["Next", "Next"] ∧ ¬ itself.targetNames.Nodup
      ∧ wovenItself.1 = .ok ⟨[5, 8], 4, some ⟨5⟩⟩
      ∧ announcedBy wovenItself.2.module ⟨1⟩ = ["Next", "Next", "Next", "Next"]
      ∧ announcedBy wovenItself.2.module ⟨5⟩ = ["Next", "Next"] := by
  refine ⟨?_, ?_, ?_, ?_, ?_, ?_⟩ <;> decide +kernel

end Weaving

end SetterLoom
