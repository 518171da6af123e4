import SetterLoom.Proofs.Machine.Renaming
import SetterLoom.Proofs.Weave.Again
import SetterLoom.Proofs.Weave.Followed
import SetterLoom.Proofs.Weave.Grown

/-!
# What a pass makes of a module

Behind a pass that succeeds each method of the module is as it was, or a setter that was woven from what
it was, or a handler that the pass declared. On the way the module only grows.

* `BlockContext.Handles`: the code of a handler.
* `Weaving.Kind`: what a method is behind a pass.
* `Course.stage`: all methods are of a kind.
* `Resolver.Serves`: what a resolver answers with on the way.
-/

namespace SetterLoom
set_option autoImplicit false

/-! ## The code of a handler -/

namespace BlockContext

variable {ctx : BlockContext} {d d' : Draft} {ops : List Op}

/-- The operation stands in the code of the handler. -/
def InHandler (ctx : BlockContext) (op : Op) : Prop :=
  op = .nop ∨ op = .ret
    ∨ ∃ target ∈ ctx.property.targets, ∃ before after, op ∈ ctx.announceOps target before after

/-- The code announces the target, whatever slots it takes the values from. -/
def AnnouncesTarget (ctx : BlockContext) (target : Property) (code : List Op) : Prop :=
  ∃ before after, code = ctx.announceOps target before after

/-- The method is called on an object and announces the targets of the property, one after the other. -/
structure Handles (ctx : BlockContext) (d : Method) : Prop where
  isInstance : d.isStatic = false
  code : ∃ body parts, d.body = some body ∧ body.code.map (·.op) = parts.flatten ++ [.nop, .ret]
    ∧ List.Forall₂ ctx.AnnouncesTarget ctx.property.targets parts

theorem AnnouncesTarget.of_mem {targets : List Property} {parts : List (List Op)} {part : List Op}
    (h : List.Forall₂ ctx.AnnouncesTarget targets parts) (hmem : part ∈ parts) :
    ∃ target ∈ targets, ctx.AnnouncesTarget target part := by
  induction h with
  | nil => cases hmem
  | cons hpart hparts ih =>
    rcases List.mem_cons.mp hmem with rfl | hmem
    · exact ⟨_, List.mem_cons_self, hpart⟩
    · obtain ⟨target, htarget, hpart⟩ := ih hmem
      exact ⟨target, List.mem_cons_of_mem _ htarget, hpart⟩

theorem Handles.inHandler {d : Method} (h : ctx.Handles d) {body : Body} (hbody : d.body = some body) :
    ∀ k ∈ body.code, ctx.InHandler k.op := by
  obtain ⟨body', parts, hbody', hcode, hparts⟩ := h.code
  obtain rfl := Option.some.inj (hbody'.symm.trans hbody)
  intro k hk
  have hop : k.op ∈ body'.code.map (·.op) := List.mem_map_of_mem hk
  rw [hcode] at hop
  rcases List.mem_append.mp hop with hop | hop
  · obtain ⟨part, hpart, hop⟩ := List.mem_flatten.mp hop
    obtain ⟨target, htarget, before, after, rfl⟩ := AnnouncesTarget.of_mem hparts hpart
    exact .inr (.inr ⟨target, htarget, before, after, hop⟩)
  · rcases List.mem_cons.mp hop with hop | hop
    · exact .inl hop
    · exact .inr (.inl (List.mem_singleton.mp hop))

/-- A call with values takes one new slot, for the value after the change. -/
theorem callWithValues_ok {target : Property} {boxed : Bool} {i : MethodId}
    (h : (ctx.callWithValues .current target boxed i).run.run d = (.ok ops, d')) :
    ops = ctx.readOps target boxed d.body.nextSlot ++ ([.ldarg 0, .ldstr target.name, .ldloc d.body.nextSlot,
        .ldloc d.body.nextSlot] ++ [ctx.callOp i target])
      ∧ ∃ type, d' = { d with body := d.body.addSlot type } := by
  obtain ⟨⟨code, before, after⟩, d₁, hread, hrest⟩ := Steps.bind_ok.mp h
  obtain ⟨⟨c, a⟩, d₂, hvalue, hslot⟩ := Steps.bind_ok.mp hread
  obtain ⟨rfl, rfl, type, rfl⟩ := readValue_ok hvalue
  obtain ⟨b, d₃, hbefore, hpure⟩ := Steps.bind_ok.mp hslot
  obtain ⟨rfl, rfl⟩ := Steps.pure_ok.mp hbefore
  obtain ⟨heq, rfl⟩ := Steps.pure_ok.mp hpure
  rw [Prod.mk.injEq, Prod.mk.injEq] at heq
  obtain ⟨rfl, rfl, rfl⟩ := heq
  obtain ⟨call, d₄, hcall, hpure⟩ := Steps.bind_ok.mp hrest
  obtain ⟨rfl, rfl⟩ := Steps.pure_ok.mp hpure
  obtain ⟨rfl, rfl⟩ := callInvoker_ok hcall
  exact ⟨rfl, type, rfl⟩

theorem invokerCall_current {target : Property}
    (h : (ctx.invokerCall .current target).run.run d = (.ok ops, d')) :
    ctx.AnnouncesTarget target ops ∧ d'.body.code = d.body.code := by
  unfold invokerCall at h
  unfold AnnouncesTarget announceOps
  cases hinvoker : ctx.type.invoker with
  | simple i | arguments i c | senderAndArguments i c =>
    rw [hinvoker] at h
    obtain ⟨call, d₁, hcall, hpure⟩ := Steps.bind_ok.mp h
    obtain ⟨rfl, rfl⟩ := Steps.pure_ok.mp hpure
    obtain ⟨rfl, rfl⟩ := callInvoker_ok hcall
    exact ⟨⟨fun _ _ => 0, 0, rfl⟩, rfl⟩
  | beforeAfter i | typedBeforeAfter i =>
    rw [hinvoker] at h
    obtain ⟨rfl, _, rfl⟩ := callWithValues_ok h
    refine ⟨⟨fun _ _ => d.body.nextSlot, d.body.nextSlot, ?_⟩, rfl⟩
    rw [← List.append_assoc]
    rfl

theorem handlerOps_ok {targets : List Property}
    (h : (ctx.handlerOps targets).run.run d = (.ok ops, d')) :
    (∃ parts, ops = parts.flatten ++ [.nop, .ret] ∧ List.Forall₂ ctx.AnnouncesTarget targets parts)
      ∧ d'.body.code = d.body.code := by
  induction targets generalizing d ops with
  | nil =>
    obtain ⟨rfl, rfl⟩ := Steps.pure_ok.mp h
    exact ⟨⟨[], rfl, .nil⟩, rfl⟩
  | cons target rest ih =>
    obtain ⟨call, d₁, hcall, hrest⟩ := Steps.bind_ok.mp h
    obtain ⟨more, d₂, hmore, hpure⟩ := Steps.bind_ok.mp hrest
    obtain ⟨rfl, rfl⟩ := Steps.pure_ok.mp hpure
    obtain ⟨hannounces, hcode⟩ := invokerCall_current hcall
    obtain ⟨⟨parts, rfl, hparts⟩, hcode'⟩ := ih hmore
    exact ⟨⟨call :: parts, by rw [List.flatten_cons, List.append_assoc], .cons hannounces hparts⟩,
      hcode'.trans hcode⟩

theorem writeHandler_ok {serial : Nat}
    (h : ctx.writeHandler.run.run { body := {}, serial } = (.ok (), d')) :
    ∃ parts, d'.body.code.map (·.op) = parts.flatten ++ [.nop, .ret]
      ∧ List.Forall₂ ctx.AnnouncesTarget ctx.property.targets parts := by
  obtain ⟨ops, d₂, hops, hrest⟩ := Steps.bind_ok.mp h
  obtain ⟨code, d₁, hlabelled, happend⟩ := Steps.bind_ok.mp hrest
  obtain ⟨⟨parts, hcode, hparts⟩, hempty⟩ := handlerOps_ok hops
  obtain ⟨rfl, rfl⟩ := labelled_ok hlabelled
  have hd : d' = { d₂ with
      serial := d₂.serial + ops.length
      body := { d₂.body with code := d₂.body.code ++ Instruction.drawFrom d₂.serial ops } } :=
    ((Prod.mk.inj happend).2).symm
  refine ⟨parts, ?_, hparts⟩
  rw [hd, hempty, ← hcode]
  exact Instruction.map_op_drawFrom d₂.serial ops

theorem exists_declareHandler {i : MethodId} {m : Module} (h : ctx.declareHandler = .ok (i, m)) :
    ctx.module.Grown m ∧ ctx.module.method? i = none
      ∧ ∃ d : Method, d.name = delegateName ctx.property.property.name ∧ ctx.Handles d
        ∧ ∀ j, m.method? j = if j = i then some d else ctx.module.method? j := by
  obtain ⟨object, arguments, draft, -, -, hwrite, hdeclared⟩ := Weaving.declareHandler_ok h
  obtain ⟨rfl, rfl⟩ := Prod.mk.inj hdeclared
  have hserial := (ctx.adds_writeHandler { body := {}, serial := ctx.module.serial }).serial
  rw [hwrite] at hserial
  obtain ⟨hnone, d, hname, hmodifiers, hbody, hmethods⟩ := Module.exists_declareOn
    { name := delegateName ctx.property.property.name
      params := [⟨"s", object⟩, ⟨"e", arguments⟩]
      body := some draft.body } ctx.type.type { ctx.module with serial := draft.serial }
  obtain ⟨parts, hcode, hparts⟩ := writeHandler_ok hwrite
  have hinstance : d.isStatic = false := by
    unfold Method.isStatic
    rw [hmodifiers]
    exact (by decide : Modifiers.hideBySig.contains .staticBit = false)
  exact ⟨((Module.Grown.refl _).withSerial hserial).declareOn rfl _, hnone, d, hname,
    ⟨hinstance, draft.body, parts, hbody, hcode, hparts⟩, hmethods⟩

end BlockContext

/-! ## Behind a pass -/

namespace Weaving

variable {options : Options} {resolver : Resolver} {w w₁ w' : Workpiece}
  {visits : List (TypePlan × PropertyPlan)} {v : TypePlan × PropertyPlan} {i : MethodId}

/-- A followed event is the nearest public one of the property's type. -/
theorem followed?_eq_some {type : TypePlan} {plan : PropertyPlan} {code : Stream} {field : Field}
    {event : Event} (h : followed? options type plan w code = some (field, event)) :
    plan.backing = some field
      ∧ w.module.publicEvent? plan.property.type handlerTypeName = some event := by
  unfold followed? at h
  split at h
  · rename_i g hbacking _
    obtain ⟨e, hevent, heq⟩ := Option.map_eq_some_iff.mp h
    obtain ⟨rfl, rfl⟩ := Prod.mk.inj heq
    refine ⟨hbacking, ?_⟩
    unfold followedEvent? at hevent
    dsimp only at hevent
    split at hevent
    · cases hevent
    split at hevent
    · cases hevent
    split at hevent
    · cases hevent
    split at hevent
    · cases hevent
    · exact hevent
  · cases h

/-- The code of a setter was woven as it is laid out, in a module on the way from `m₀` to `m`, and its handler is
a method of `m` that is not of `m₀`. -/
structure Laced {ctx : BlockContext} (m₀ m : Module) (body : Body)
    {subscription : Option (Field × Event × MethodId)} {called : List String}
    {before : String → Bool → UInt16}
    (l : Layout ctx subscription called (ctx.property.anchors body.code).1 before) (result : Body) :
    Prop where
  code : result.code = l.weave body.code
  labels : ∃ count, ((l.injected body.code).map (·.label)).Perm
    ((List.range' ctx.module.serial count).map .drawn)
  anchored : Layout.Anchored subscription (ctx.property.anchors body.code).1 body.code
  grown : m₀.Grown ctx.module
  onward : ctx.module.Grown m
  follows : ∀ field event handler, subscription = some (field, event, handler) →
    ctx.property.backing = some field ∧ m₀.method? handler = none
      ∧ (∃ d n, m.method? handler = some d ∧ d.name = delegateName ctx.property.property.name
        ∧ BlockContext.Handles { ctx with module := n } d)
      ∧ ∃ n, m₀.Shaped n ∧ n.publicEvent? ctx.property.property.type handlerTypeName = some event

/-- What a method is behind a pass over a module. -/
inductive Kind (options : Options) (resolver : Resolver) (visits : List (TypePlan × PropertyPlan))
    (m₀ m : Module) : MethodId → Method → Prop
  | kept {i : MethodId} {d : Method} (old : m₀.method? i = some d) : Kind options resolver visits m₀ m i d
  | handler {i : MethodId} {d : Method} {v : TypePlan × PropertyPlan} {n : Module} (hv : v ∈ visits)
    (isNew : m₀.method? i = none) (name : d.name = delegateName v.2.property.name)
    (handles : (⟨options, resolver, n, v.1, v.2⟩ : BlockContext).Handles d) :
    Kind options resolver visits m₀ m i d
  | woven {i : MethodId} {d : Method} {v : TypePlan × PropertyPlan} {n : Module} {body result : Body}
    {subscription : Option (Field × Event × MethodId)} {called : List String}
    {before : String → Bool → UInt16} (hv : v ∈ visits) (setter : v.2.property.setter = some i)
    (old : m₀.method? i = some d) (body_eq : d.body = some body)
    (l : Layout ⟨options, resolver, n, v.1, v.2⟩ subscription called (v.2.anchors body.code).1 before)
    (laced : Laced m₀ m body l result) :
    Kind options resolver visits m₀ m i
      { d with body := some result, attributes := d.attributes ++ [Surface.woven] }

/-- A module on the way from `m₀`: all its methods are of a kind. -/
structure Stage (options : Options) (resolver : Resolver) (visits : List (TypePlan × PropertyPlan))
    (m₀ m : Module) : Prop where
  grown : m₀.Grown m
  old : ∀ i d, m₀.method? i = some d → ∃ d', m.method? i = some d'
  kinds : ∀ i d, m.method? i = some d → Kind options resolver visits m₀ m i d

theorem Kind.mono {m₀ m m' : Module} {d : Method} (h : Kind options resolver visits m₀ m i d)
    (hgrown : m.Grown m') (hnew : ∀ j d, m₀.method? j = none → m.method? j = some d → m'.method? j = some d) :
    Kind options resolver visits m₀ m' i d := by
  cases h with
  | kept old => exact .kept old
  | handler hv isNew name handles => exact .handler hv isNew name handles
  | woven hv setter old body_eq l laced =>
    refine .woven hv setter old body_eq l
      ⟨laced.code, laced.labels, laced.anchored, laced.grown, laced.onward.trans hgrown,
        fun field event handler h => ?_⟩
    obtain ⟨hbacking, hnone, ⟨d, n, hd, hdeclared⟩, hevent⟩ := laced.follows field event handler h
    exact ⟨hbacking, hnone, ⟨d, n, hnew handler d hnone hd, hdeclared⟩, hevent⟩

theorem Stage.unmarked {m₀ m : Module} {d d₀ : Method} (h : Stage options resolver visits m₀ m)
    (hunmarked : m.isWoven i = false) (hd₀ : m₀.method? i = some d₀) (hd : m.method? i = some d) :
    d = d₀ := by
  cases h.kinds i d hd with
  | kept old => exact Option.some.inj (old.symm.trans hd₀)
  | handler _ isNew => rw [isNew] at hd₀; cases hd₀
  | woven =>
    rw [Module.isWoven_eq hd] at hunmarked
    simp [Method.hasAttribute] at hunmarked

/-- What weaving a setter did to the module: it was edited as it is laid out and marked, and a handler was
declared if the setter follows its value. -/
structure Edit (options : Options) (resolver : Resolver) (v : TypePlan × PropertyPlan) (m : Module)
    (i : MethodId) (d : Method) (body result : Body) (n m' : Module)
    (subscription : Option (Field × Event × MethodId)) {called : List String}
    {before : String → Bool → UInt16}
    (l : Layout ⟨options, resolver, n, v.1, v.2⟩ subscription called (v.2.anchors body.code).1 before) :
    Prop where
  declared : (subscription = none ∧ n = m)
    ∨ ∃ field event handler e, subscription = some (field, event, handler) ∧ v.2.backing = some field
      ∧ m.publicEvent? v.2.property.type handlerTypeName = some event
      ∧ m.method? handler = none ∧ e.name = delegateName v.2.property.name
      ∧ (⟨options, resolver, m, v.1, v.2⟩ : BlockContext).Handles e
      ∧ ∀ j, n.method? j = if j = handler then some e else m.method? j
  grown : m.Grown n
  onward : n.Grown m'
  code : result.code = l.weave body.code
  labels : ∃ count, m'.serial = n.serial + count
    ∧ ((l.injected body.code).map (·.label)).Perm ((List.range' n.serial count).map .drawn)
  anchored : Layout.Anchored subscription (v.2.anchors body.code).1 body.code
  method? : ∀ j, m'.method? j
    = if i = j then some { d with body := some result, attributes := d.attributes ++ [Surface.woven] }
      else n.method? j

theorem exists_edit {woven : WovenSetter} {d : Method} {body : Body}
    (hset : v.2.property.setter = some i) (hd : w.module.method? i = some d) (hbody : d.body = some body)
    (hchecked : (checkedSetter options resolver v.1 v.2).run.run w = (.ok woven, w₁)) :
    ∃ result n subscription called before,
      ∃ l : Layout ⟨options, resolver, n, v.1, v.2⟩ subscription called (v.2.anchors body.code).1 before,
        Edit options resolver v w.module i d body result n (Workpiece.mark w₁ i).module subscription l
          ∧ subscription.map (fun s => (s.1, s.2.1)) = followed? options v.1 v.2 w body.code := by
  -- the check only adds a verdict, so the setter was woven and left the same state
  obtain ⟨woven', hsetter⟩ :
      ∃ woven', (setter options resolver v.1 v.2).run.run w = (.ok woven', w₁) := by
    have hstate : w₁ = ((setter options resolver v.1 v.2).run.run w).2 := by
      rw [← checkedSetter_state, hchecked]
    unfold checkedSetter at hchecked
    obtain ⟨woven', w₂, hsetter, -⟩ := Steps.bind_ok.mp hchecked
    rw [hsetter] at hstate
    exact ⟨woven', hstate ▸ hsetter⟩
  have hbody' : (w.module.method? i).bind (·.body) = some body := by
    rw [hd, Option.bind_some, hbody]
  obtain ⟨n, subscription, before, result, l, hsubscription, -, hmodule, hcode, ⟨count, hserial, hlabels⟩,
    -⟩ := laidOut_setter hset hbody' hsetter
  obtain ⟨-, hkept⟩ := hsubscription.kept rfl
  have hanchored := hsubscription.anchored
  have hedits : n.Grown w₁.module := by
    rw [hmodule]
    exact (Module.Grown.refl n).setBody (hkept i d hd) (by rw [hbody]; rfl) result (by omega)
  refine ⟨result, n, subscription, _, before, l, ⟨?_, ?_, hedits.addAttribute i _, hcode,
    ⟨count, hserial, hlabels⟩, hanchored, fun j => ?_⟩, ?_⟩
  · cases hfollowed : followed? options v.1 v.2 w body.code with
    | none =>
      rw [hfollowed] at hsubscription
      exact .inl hsubscription
    | some followed =>
      obtain ⟨field, event⟩ := followed
      rw [hfollowed] at hsubscription
      obtain ⟨handler, hsome, hdeclare⟩ := hsubscription
      obtain ⟨hbacking, hpublic⟩ := followed?_eq_some hfollowed
      obtain ⟨-, hnone, e, hname, hhandles, hmethods⟩ := BlockContext.exists_declareHandler hdeclare
      exact .inr ⟨field, event, handler, e, hsome, hbacking, hpublic, hnone, hname, hhandles, hmethods⟩
  · cases hfollowed : followed? options v.1 v.2 w body.code with
    | none =>
      rw [hfollowed] at hsubscription
      obtain ⟨-, rfl⟩ := hsubscription
      exact .refl _
    | some followed =>
      rw [hfollowed] at hsubscription
      obtain ⟨handler, -, hdeclare⟩ := hsubscription
      exact (BlockContext.exists_declareHandler hdeclare).1
  -- the body was edited and then the mark added, both to the setter only
  · have hedited : w₁.module.method? j
        = if i = j then (n.method? j).map fun d => { d with body := some result } else n.method? j := by
      rw [hmodule]
      exact Module.method?_updateMethod n i j _
    show (w₁.module.updateMethod i _).method? j = _
    rw [Module.method?_updateMethod, hedited]
    by_cases hij : i = j
    · subst hij
      rw [if_pos rfl, if_pos rfl, if_pos rfl, hkept i d hd]
      rfl
    · rw [if_neg hij, if_neg hij, if_neg hij]
  · cases hfollowed : followed? options v.1 v.2 w body.code with
    | none =>
      rw [hfollowed] at hsubscription
      rw [hsubscription.1, Option.map_none]
    | some followed =>
      rw [hfollowed] at hsubscription
      obtain ⟨handler, rfl, -⟩ := hsubscription
      rfl

namespace Edit

variable {m n m' : Module} {d : Method} {body result : Body}
  {subscription : Option (Field × Event × MethodId)} {called : List String}
  {before : String → Bool → UInt16}
  {l : Layout ⟨options, resolver, n, v.1, v.2⟩ subscription called (v.2.anchors body.code).1 before}

theorem kept (h : Edit options resolver v m i d body result n m' subscription l) {j : MethodId}
    {e : Method} (hj : m.method? j = some e) : n.method? j = some e := by
  rcases h.declared with ⟨-, rfl⟩ | ⟨_, _, handler, _, -, -, -, hnone, -, -, hmethods⟩
  · exact hj
  · rw [hmethods, if_neg, hj]
    rintro rfl
    rw [hnone] at hj
    cases hj

theorem stays (h : Edit options resolver v m i d body result n m' subscription l) {j : MethodId}
    {e : Method} (hj : m.method? j = some e) : ∃ e', m'.method? j = some e' := by
  rw [h.method?]
  split
  · exact ⟨_, rfl⟩
  · exact ⟨e, h.kept hj⟩

theorem same (h : Edit options resolver v m i d body result n m' subscription l) {j : MethodId}
    {e : Method} (hne : i ≠ j) (hj : m.method? j = some e) : m'.method? j = m.method? j := by
  rw [h.method?, if_neg hne, hj]
  exact h.kept hj

theorem handler (h : Edit options resolver v m i d body result n m' subscription l) {j : MethodId}
    (hsome : ∃ field event, subscription = some (field, event, j)) :
    m.method? j = none ∧ ∃ e, m'.method? j = some e := by
  obtain ⟨field, event, hsome⟩ := hsome
  rcases h.declared with ⟨hnone, -⟩ | ⟨_, _, handler, e, hsome', -, -, hfree, -, -, hmethods⟩
  · rw [hnone] at hsome
    cases hsome
  · cases hsome'.symm.trans hsome
    refine ⟨hfree, ?_⟩
    rw [h.method?]
    split
    · exact ⟨_, rfl⟩
    · exact ⟨e, by rw [hmethods, if_pos rfl]⟩

end Edit

theorem Stage.unknown {m₀ m : Module} {j : MethodId} (h : Stage options resolver visits m₀ m)
    (hnone : m.method? j = none) : m₀.method? j = none := by
  cases hj : m₀.method? j with
  | none => rfl
  | some d =>
    obtain ⟨d', hd'⟩ := h.old j d hj
    rw [hnone] at hd'
    cases hd'

theorem Stage.weave {m₀ : Module} {woven : WovenSetter} {d : Method} {body : Body}
    (h : Stage options resolver visits m₀ w.module) (hv : v ∈ visits)
    (hset : v.2.property.setter = some i) (hd₀ : m₀.method? i = some d) (hbody : d.body = some body)
    (hunmarked : isMarked w.module v.2.property = false)
    (hchecked : (checkedSetter options resolver v.1 v.2).run.run w = (.ok woven, w₁)) :
    Stage options resolver visits m₀ (Workpiece.mark w₁ i).module := by
  obtain ⟨d', hd⟩ := h.old i d hd₀
  rw [isMarked_eq, hset, Option.any_some] at hunmarked
  obtain rfl := h.unmarked hunmarked hd₀ hd
  obtain ⟨result, n, subscription, called, before, l, hedit, -⟩ := exists_edit hset hd hbody hchecked
  obtain ⟨count, hserial, hlabels⟩ := hedit.labels
  have hmarked := hedit.method?
  have hstays : ∀ j d, m₀.method? j = none → n.method? j = some d →
      (Workpiece.mark w₁ i).module.method? j = some d := by
    intro j d hnone hj
    have hne : i ≠ j := by
      rintro rfl
      rw [hnone] at hd₀
      cases hd₀
    rw [hmarked, if_neg hne, hj]
  have hgrown := hedit.grown.trans hedit.onward
  refine ⟨h.grown.trans hgrown, fun j d hj => ?_, fun j d hj => ?_⟩
  · obtain ⟨dj, hdj⟩ := h.old j d hj
    exact hedit.stays hdj
  · rw [hmarked] at hj
    -- the setter is woven now, the handler is new, and all other
    -- methods are of the kind they were of
    split at hj
    · rename_i heq
      subst heq
      obtain rfl := Option.some.inj hj
      refine .woven hv hset hd₀ hbody l ⟨hedit.code, ⟨count, hlabels⟩, hedit.anchored,
        h.grown.trans hedit.grown, hedit.onward, fun field event handler hsome => ?_⟩
      rcases hedit.declared with ⟨hnone, -⟩ | ⟨field', event', handler', e, hsome', hbacking, hpublic, hfree,
        hname, hhandles, hmethods⟩
      · rw [hnone] at hsome
        cases hsome
      · cases hsome'.symm.trans hsome
        exact ⟨hbacking, h.unknown hfree,
          ⟨e, w.module, hstays handler e (h.unknown hfree) (by rw [hmethods, if_pos rfl]), hname, hhandles⟩,
          w.module, h.grown.toShaped, hpublic⟩
    · have hold : ∀ {e}, w.module.method? j = some e → Kind options resolver visits m₀
          (Workpiece.mark w₁ i).module j e := fun hold =>
        (h.kinds j _ hold).mono hgrown fun k dk hk hdk => hstays k dk hk (hedit.kept hdk)
      rcases hedit.declared with ⟨-, rfl⟩ | ⟨_, _, handler, e, -, -, -, hfree, hname, hhandles, hmethods⟩
      · exact hold hj
      · rw [hmethods] at hj
        split at hj
        · rename_i heq
          subst heq
          obtain rfl := Option.some.inj hj
          exact .handler hv (h.unknown hfree) hname hhandles
        · exact hold hj

/-- All methods of a module behind a pass are of a kind. -/
theorem Course.stage {m₀ : Module} {rest : List (TypePlan × PropertyPlan)} {edited : List MethodId}
    (h : Course options resolver w rest edited w') (hrest : ∀ v ∈ rest, v ∈ visits)
    (hold : ∀ v ∈ visits, ∀ i, v.2.property.setter = some i →
      ∃ d body, m₀.method? i = some d ∧ d.body = some body)
    (hstage : Stage options resolver visits m₀ w.module) :
    Stage options resolver visits m₀ w'.module := by
  induction h with
  | done => exact hstage
  | skipped _ _ ih => exact ih (fun v hv => hrest v (List.mem_cons_of_mem _ hv)) hstage
  | woven hunmarked hset hchecked _ ih =>
    have hv := hrest _ List.mem_cons_self
    obtain ⟨d, body, hd, hbody⟩ := hold _ hv _ hset
    exact ih (fun v hv => hrest v (List.mem_cons_of_mem _ hv))
      (hstage.weave hv hset hd hbody hunmarked hchecked)

theorem stage_refl (m : Module) : Stage options resolver visits m m :=
  ⟨.refl m, fun _ d hd => ⟨d, hd⟩, fun _ _ hd => .kept hd⟩

end Weaving

/-! ## What the resolver answers on the way -/

namespace Resolver

/-- Behind a pass the methods have tokens of their own, and for the modules on the way there the resolver answers
with the comparison of objects and a constructor of handlers, both such that they may be called. -/
structure Serves (resolver : Resolver) (m₀ m : Module) (callable : MethodId → Prop) : Prop where
  unique : m.UniqueTokens
  equals : ∀ n i, m₀.Grown n → n.Grown m → resolver.objectEquals n = .ok i →
    callable i ∧ ∃ d, m.Compares i d Machine.withRuntimeMembers.hooks
  makes : ∀ n i, m₀.Grown n → n.Grown m → resolver.handlerConstructor n = .ok i →
    callable i ∧ ∃ type, m.MakesHandlers i type

/-- A resolver that does not notice the pass is asked about the module in front of it. -/
theorem Serves.of_steady {resolver : Resolver} {m₀ m : Module} {callable : MethodId → Prop}
    (hunique : m.UniqueTokens) (hsteady : resolver.Steady m₀)
    (hequals : ∀ i, resolver.objectEquals m₀ = .ok i →
      callable i ∧ ∃ d, m.Compares i d Machine.withRuntimeMembers.hooks)
    (hmakes : ∀ i, resolver.handlerConstructor m₀ = .ok i → callable i ∧ ∃ type, m.MakesHandlers i type) :
    resolver.Serves m₀ m callable where
  unique := hunique
  equals n i hn _ hi := hequals i (hsteady.objectEquals n hn ▸ hi)
  makes n i hn _ hi := hmakes i (hsteady.handlerConstructor n hn ▸ hi)

end Resolver

end SetterLoom
