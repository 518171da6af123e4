import SetterLoom.Proofs.Weave.Layout

/-!
# What weaving a setter leaves

Weaving a setter replaces its body by a layout of the old one. Everything that is found by looking at a
body is found in the unedited one: the anchors, the hooks that are called already, and the store that the
subscription stands around.

* `edits_layout`: the edits of a body come to one insertion at all positions at once.
* `setter_eq`, `setter_cases`: the steps of weaving the setter of a property.
* `setter_stores`, `setter_layout`: what they leave is a layout of the setter's body.
-/

namespace SetterLoom
set_option autoImplicit false

namespace Module

theorem method?_declareOn (s : MethodSpec) (t : TypeId) (m : Module) {i : MethodId} {d : Method}
    (h : m.method? i = some d) : (s.declareOn t m).2.method? i = some d := by
  have hlt : i.index < m.methods.size := by
    rcases Nat.lt_or_ge i.index m.methods.size with hlt | hge
    · exact hlt
    · simp [method?, Array.getElem?_eq_none hge] at h
  have hold := method?_addMethod_old (m.drawToken .methodDef).2
    { token := (m.drawToken .methodDef).1, name := s.name, access := s.access,
      modifiers := s.modifiers, params := s.params, returns := s.returns, generics := s.generics,
      attributes := s.attributes, body := s.body } (i := i) hlt
  have hne : (⟨m.methods.size⟩ : MethodId) ≠ i := by
    rintro rfl
    exact Nat.lt_irrefl _ hlt
  unfold MethodSpec.declareOn attachMethod
  rw [method?_updateType, method?_updateMethod]
  exact (if_neg hne).trans (hold.trans h)

end Module

namespace PropertyPlan

theorem pairwise_anchors (plan : PropertyPlan) (code : Stream) :
    (plan.anchors code).1.Pairwise (· < ·) := by
  unfold anchors
  split
  · exact List.pairwise_singleton _ _
  · rename_i field _
    split
    · exact List.pairwise_singleton _ _
    · exact Stream.pairwise_stores code field.name

theorem le_length_of_mem_anchors {plan : PropertyPlan} {code : Stream} {p : Nat}
    (h : p ∈ (plan.anchors code).1) : p ≤ code.length := by
  unfold anchors at h
  split at h
  · rw [List.mem_singleton.mp h]
    exact code.lastReturn_le
  · split at h
    · rw [List.mem_singleton.mp h]
      exact code.lastReturn_le
    · exact Stream.le_length_of_mem_stores h

theorem pos_of_mem_anchors {plan : PropertyPlan} {code : Stream} {p : Nat}
    (hstores : (plan.anchors code).2 = true) (h : p ∈ (plan.anchors code).1) : 0 < p := by
  unfold anchors at h hstores
  split at h
  · rename_i hnone
    rw [hnone] at hstores
    exact absurd hstores nofun
  · rename_i field hfield
    rw [hfield] at hstores
    split at h
    · rename_i hnil
      simp only [hnil] at hstores
      exact absurd hstores nofun
    · exact Stream.pos_of_mem_stores h

end PropertyPlan

/-- The setter of the property is in the module, with code. -/
def PropertyPlan.HasBody (plan : PropertyPlan) (m : Module) : Prop :=
  ∃ i d body, plan.property.setter = some i ∧ m.method? i = some d ∧ d.body = some body

namespace Weaving

variable {options : Options} {resolver : Resolver} {type : TypePlan} {plan : PropertyPlan}
  {ctx : BlockContext} {called : List String} {anchors : List Nat}
  {subscription : Option (Field × Event × MethodId)} {body : Body} {serial : Nat}

/-- Reading the values before the change goes in front of everything, and completes the layout. -/
private theorem prologue_layout {d d' : Draft} {blocks : Nat → List Instruction}
    (unsubscribe subscribe : List Instruction) (notification : Nat → List Instruction)
    (hlaid : BlockContext.Laid ctx body serial
      (ctx.targetsReadings called ctx.property.targets) blocks d)
    (hblocks : ∀ p, blocks p
      = (if anchors.head?.map (BlockContext.storePosition body.code) = some p then unsubscribe
          else [])
        ++ (if anchors.head? = some p then subscribe else [])
        ++ if p ∈ anchors then notification p else [])
    (hunsubscribe : subscription.elim (unsubscribe = []) fun (field, event, handler) =>
      ∃ remove, event.remove = some remove ∧ ctx.Subscribes field handler remove unsubscribe)
    (hsubscribe : subscription.elim (subscribe = []) fun (field, event, handler) =>
      ∃ add, event.add = some add ∧ ctx.Subscribes field handler add subscribe)
    (hnotification : ∀ before, d.Agrees before → ∀ p ∈ anchors, ∃ after,
      after.length = ctx.property.targets.length
        ∧ (notification p).map (·.op) = ctx.changeOps called before after)
    (hrun : Draft.prependPrologue.run.run d = (.ok (), d')) :
    ∃ before, ∃ l : Layout ctx subscription called anchors before,
      d'.body.code = l.weave body.code
        ∧ (∃ count, d'.serial = serial + count
          ∧ BlockContext.DrawnFrom serial count (l.injected body.code))
        ∧ ∃ new, d'.body.slots = body.slots ++ new
          ∧ (storedSlots ((l.injected body.code).map (·.op))).Perm
            ((List.range' body.slots.length new.length).map UInt16.ofNat) := by
  obtain ⟨_, d₀, hget, hrest⟩ := Steps.bind_ok.mp hrun
  obtain ⟨rfl, rfl⟩ := Steps.get_ok.mp hget
  obtain ⟨prologue, d₁, hlabelled, hprepend⟩ := Steps.bind_ok.mp hrest
  obtain ⟨hprologue, rfl⟩ := BlockContext.labelled_ok hlabelled
  obtain rfl := (Prod.mk.inj hprepend).2
  have hops : prologue.map (·.op) = d₀.prologue := by
    rw [hprologue]
    exact Instruction.map_op_drawFrom d₀.serial d₀.prologue
  have hkeys : (d₀.captures.map fun c => (c.property, c.boxed)).Nodup := by
    rw [hlaid.drafted.captures]
    exact nodup_keys_firstReadings _
  have hagrees := Draft.agrees_capture? hkeys
  -- the slots of the captures are the ones that the prologue
  -- stores into, so they complete the layout
  let l : Layout ctx subscription called anchors
      fun name boxed => (d₀.capture? name boxed).getD 0 :=
    { prologue, unsubscribe, subscribe, notification
      prologue_ops := hops.trans (hlaid.drafted.prologue _ hagrees)
      unsubscribe_ops := hunsubscribe
      subscribe_ops := hsubscribe
      notification_ops := hnotification _ hagrees }
  have hblock : l.block body.code = blocks := funext fun p => (hblocks p).symm
  obtain ⟨count, hserial, hlabels⟩ := hlaid.labels
  obtain ⟨new, hslots, hstored⟩ := hlaid.drafted.slots
  refine ⟨_, l, ?_, ⟨count + d₀.prologue.length, ?_, ?_⟩, new, hslots, ?_⟩
  · show prologue ++ d₀.body.code = prologue ++ body.code.interleave (l.block body.code)
    rw [hlaid.code, hblock]
  · show d₀.serial + d₀.prologue.length = _
    rw [hserial, Nat.add_assoc]
  · show BlockContext.DrawnFrom serial _ (prologue ++ body.code.injected (l.block body.code))
    have hlast := BlockContext.drawnFrom_drawFrom d₀.serial d₀.prologue
    rw [← hprologue, hserial] at hlast
    rw [hblock]
    have hcomm : (prologue ++ body.code.injected blocks).Perm
        (body.code.injected blocks ++ prologue) := List.perm_append_comm
    have hswap := hcomm.map fun i : Instruction => i.label
    exact hswap.trans (BlockContext.drawnFrom_append hlabels hlast)
  · show (storedSlots
      ((prologue ++ body.code.injected (l.block body.code)).map (·.op))).Perm _
    rw [hblock, List.map_append, hops]
    exact hstored

theorem edits_eq :
    edits ctx called anchors subscription
      = (anchors.reverse.forM (ctx.weaveAnchor called) >>= fun _ =>
          (match subscription, anchors with
            | some (field, event, handler), first :: _ =>
              ctx.weaveSubscription field event handler first
            | _, _ => pure ()) >>= fun _ => Draft.prependPrologue) := by
  unfold edits
  cases subscription with
  | none => cases anchors <;> rfl
  | some s => cases anchors <;> rfl

/-- The edits of a body come to one insertion at all positions at once. -/
theorem edits_layout {d' : Draft} (hsorted : anchors.Pairwise (· < ·))
    (hle : ∀ a ∈ anchors, a ≤ body.code.length) (hne : anchors ≠ [])
    (hpos : subscription.isSome → ∀ a ∈ anchors, 0 < a)
    (hrun : (edits ctx called anchors subscription).run.run { body, serial } = (.ok (), d')) :
    ∃ before, ∃ l : Layout ctx subscription called anchors before,
      d'.body.code = l.weave body.code
        ∧ (∃ count, d'.serial = serial + count
          ∧ BlockContext.DrawnFrom serial count (l.injected body.code))
        ∧ ∃ new, d'.body.slots = body.slots ++ new
          ∧ (storedSlots ((l.injected body.code).map (·.op))).Perm
            ((List.range' body.slots.length new.length).map UInt16.ofNat) := by
  rw [edits_eq] at hrun
  obtain ⟨_, d₁, hanchors, hrest⟩ := Steps.bind_ok.mp hrun
  obtain ⟨_, d₂, hsubscription, hprologue⟩ := Steps.bind_ok.mp hrest
  obtain ⟨notes, hlaid, hnone, hnotes⟩ :=
    BlockContext.weaveAnchors_laid hsorted hle hanchors
  rw [if_neg hne] at hlaid
  have hnote : ∀ p, (if p ∈ anchors then notes p else []) = notes p := by
    intro p
    split
    · rfl
    · rename_i hp
      exact (hnone p hp).symm
  cases subscription with
  | none =>
    obtain ⟨-, rfl⟩ := Steps.pure_ok.mp hsubscription
    refine prologue_layout [] [] notes hlaid
      (fun p => ?_) rfl rfl hnotes hprologue
    rw [hnote p, ite_self, ite_self]
    rfl
  | some s =>
    obtain ⟨field, event, handler⟩ := s
    cases anchors with
    | nil => exact absurd rfl hne
    | cons first rest =>
      have hfirst : 0 < first := hpos rfl first List.mem_cons_self
      have hlow : ∀ p, p < first → notes p = [] := by
        intro p hp
        refine hnone p fun hmem => ?_
        rcases List.mem_cons.mp hmem with rfl | hrest
        · exact Nat.lt_irrefl _ hp
        · exact Nat.lt_asymm hp ((List.pairwise_cons.mp hsorted).1 p hrest)
      -- the subscription is put in front of what the anchors have, since
      -- nothing stands in front of the first one
      obtain ⟨add, remove, subscribe, unsubscribe, hadd, hremove, hsub, hunsub, hcaptures,
        hlaid'⟩ := BlockContext.weaveSubscription_laid hlaid hfirst hlow
          (hle first List.mem_cons_self) hsubscription
      refine prologue_layout unsubscribe subscribe notes hlaid' (fun p => ?_)
        ⟨remove, hremove, hunsub⟩ ⟨add, hadd, hsub⟩ (fun before hb => hnotes before fun c hc => hb c (hcaptures ▸ hc))
        hprologue
      rw [hnote p, Stream.putBefore, Stream.putBefore, List.head?_cons, Option.map_some]
      simp only [Option.some.injEq, eq_comm (a := p)]
      split <;> split <;> simp

/-- The event that the handler of a property is subscribed to, if a body stores into the backing
field at all. -/
def followed? (options : Options) (type : TypePlan) (plan : PropertyPlan) (w : Workpiece)
    (code : Stream) : Option (Field × Event) :=
  match plan.backing, (plan.anchors code).2 with
  | some field, true =>
    (followedEvent? w.module options type.type plan.property w.capabilities).1.map (field, ·)
  | _, _ => none

/-- The subscription to a followed event is that of a handler declared with the module. -/
def Subscription (ctx : Module → BlockContext) (m : Module) (followed : Option (Field × Event))
    (subscription : Option (Field × Event × MethodId)) (m' : Module) : Prop :=
  followed.elim (subscription = none ∧ m' = m) fun (field, event) =>
    ∃ handler, subscription = some (field, event, handler)
      ∧ (ctx m).declareHandler = .ok (handler, m')

theorem declareHandler_ok {ctx : BlockContext} {i : MethodId} {m : Module}
    (h : ctx.declareHandler = .ok (i, m)) :
    ∃ object arguments draft, ctx.resolver.objectType ctx.module = .ok object
      ∧ ctx.resolver.eventArgsType ctx.module = .ok arguments
      ∧ ctx.writeHandler.run.run { body := {}, serial := ctx.module.serial } = (.ok (), draft)
      ∧ (i, m) = MethodSpec.declareOn
        { name := delegateName ctx.property.property.name
          params := [⟨"s", object⟩, ⟨"e", arguments⟩]
          body := some draft.body }
        ctx.type.type { ctx.module with serial := draft.serial } := by
  unfold BlockContext.declareHandler at h
  cases hobject : ctx.resolver.objectType ctx.module with
  | error e =>
    rw [hobject] at h
    exact absurd h nofun
  | ok object =>
    rw [hobject] at h
    cases harguments : ctx.resolver.eventArgsType ctx.module with
    | error e =>
      rw [harguments] at h
      exact absurd h nofun
    | ok arguments =>
      rw [harguments] at h
      cases hwrite : ctx.writeHandler.run.run { body := {}, serial := ctx.module.serial } with
      | mk result draft =>
        cases result with
        | error e =>
          simp only [hwrite] at h
          exact absurd h nofun
        | ok u =>
          simp only [hwrite] at h
          exact ⟨object, arguments, draft, rfl, rfl, rfl, (Except.ok.inj h).symm⟩

theorem method?_declareHandler {ctx : BlockContext} {i j : MethodId} {m : Module} {d : Method}
    (h : ctx.declareHandler = .ok (i, m)) (hd : ctx.module.method? j = some d) :
    m.method? j = some d := by
  obtain ⟨object, arguments, draft, -, -, -, hdeclared⟩ := declareHandler_ok h
  obtain ⟨-, rfl⟩ := Prod.mk.inj hdeclared
  exact Module.method?_declareOn _ _ _ hd

private theorem body_setBody {m : Module} {method : MethodId} {d : Method}
    (h : m.method? method = some d) (result : Body) (serial : Nat) :
    (({ m.setBody method (some result) with serial } : Module).method? method).bind (·.body)
      = some result := by
  show ((m.setBody method (some result)).method? method).bind (·.body) = some result
  rw [Module.method?_setBody h, Option.bind_some]

/-! ## The steps of weaving a setter -/

section Steps

variable {w w' : Workpiece} {i : MethodId} {d : Method}

theorem subscription?_run (options : Options) (type : TypePlan) (plan : PropertyPlan) (code : Stream)
    (w : Workpiece) :
    ∃ capabilities, (subscription? options type plan (plan.anchors code).2).run.run w
      = (.ok (followed? options type plan w code), { w with capabilities }) := by
  unfold followed?
  cases hbacking : plan.backing with
  | none =>
    refine ⟨w.capabilities, ?_⟩
    show subscription? options type plan _ w = _
    simp only [subscription?, hbacking]
  | some field =>
    cases hstores : (plan.anchors code).2 with
    | false =>
      refine ⟨w.capabilities, ?_⟩
      show subscription? options type plan false w = _
      simp only [subscription?, hbacking]
    | true =>
      refine ⟨(followedEvent? w.module options type.type plan.property w.capabilities).2, ?_⟩
      show subscription? options type plan true w = _
      simp only [subscription?, hbacking]

/-- The last step of weaving a setter: its body is edited. -/
def finish (options : Options) (resolver : Resolver) (type : TypePlan) (plan : PropertyPlan)
    (setter : MethodId) (body : Body) (called : List String)
    (subscription : Option (Field × Event × MethodId)) (w : Workpiece) :
    Except Error WovenSetter × Workpiece :=
  let anchors := (plan.anchors body.code).1
  let run := (edits ⟨options, resolver, w.module, type, plan⟩ called anchors subscription).run.run
    { body, serial := w.module.serial }
  (run.1.map fun _ => ⟨anchors, run.2.calls, subscription.map (·.2.2)⟩,
    { w with module := { w.module.setBody setter (some run.2.body) with serial := run.2.serial } })

/-- The hooks of its targets that a setter calls already. -/
def calledHooks (m : Module) (plan : PropertyPlan) (code : Stream) : List String :=
  (plan.targets.map (hookName ·.name)).filter (m.containsCallTo code)

theorem setter_of_not_hasBody (options : Options) (resolver : Resolver) (type : TypePlan)
    (h : ¬ plan.HasBody w.module) : ∃ e, (setter options resolver type plan).run.run w = (.error e, w) := by
  have hget : (get : Weaving Workpiece).run.run w = (.ok w, w) := rfl
  unfold setter
  cases hset : plan.property.setter with
  | none => exact ⟨_, rfl⟩
  | some i =>
    dsimp only
    rw [Steps.bind_run, hget]
    dsimp only
    cases hbody : (w.module.method? i).bind (·.body) with
    | none => exact ⟨_, rfl⟩
    | some body =>
      obtain ⟨d, hd, hbody⟩ := Option.bind_eq_some_iff.mp hbody
      exact absurd ⟨i, d, body, hset, hd, hbody⟩ h

private theorem edit_run {α : Type} (setter : MethodId) (body : Body) (steps : Drafting α) (w : Workpiece) :
    (edit setter body steps).run.run w
      = ((steps.run.run { body, serial := w.module.serial }).1.map
          (·, (steps.run.run { body, serial := w.module.serial }).2),
        { w with module :=
          { w.module.setBody setter (some (steps.run.run { body, serial := w.module.serial }).2.body) with
            serial := (steps.run.run { body, serial := w.module.serial }).2.serial } }) := rfl

/-- A setter is woven in up to three steps: what it follows is looked up, the handler is declared if there is
something to follow, and the body is edited. -/
theorem setter_eq (resolver : Resolver) (hset : plan.property.setter = some i) (hd : w.module.method? i = some d)
    (hbody : d.body = some body) {followed : Option (Field × Event)} {capabilities : CapabilityCache}
    (hfollowed : (subscription? options type plan (plan.anchors body.code).2).run.run w
      = (.ok followed, { w with capabilities })) :
    (setter options resolver type plan).run.run w
      = followed.elim
        (finish options resolver type plan i body (calledHooks w.module plan body.code) none
          { w with capabilities })
        fun f =>
          match (⟨options, resolver, w.module, type, plan⟩ : BlockContext).declareHandler with
          | .ok (h, n) =>
            finish options resolver type plan i body (calledHooks w.module plan body.code)
              (some (f.1, f.2, h)) ⟨n, capabilities⟩
          | .error e => (.error e, { w with capabilities }) := by
  have hget : ∀ w : Workpiece, (get : Weaving Workpiece).run.run w = (.ok w, w) := fun _ => rfl
  have hpure : ∀ {α : Type} (a : α) (w : Workpiece), (pure a : Weaving α).run.run w = (.ok a, w) :=
    fun _ _ => rfl
  have hedited : ∀ (called : List String) (subscription : Option (Field × Event × MethodId)) (w₁ : Workpiece),
      (do
        let w₂ ← get
        let edited ← edit i body (edits ⟨options, resolver, w₂.module, type, plan⟩
          called (plan.anchors body.code).1 subscription)
        return ⟨(plan.anchors body.code).1, edited.2.calls, subscription.map (·.2.2)⟩
          : Weaving WovenSetter).run.run w₁
        = finish options resolver type plan i body called subscription w₁ := by
    intro called subscription w₁
    rw [Steps.bind_run, hget]
    dsimp only
    rw [Steps.bind_run, edit_run]
    unfold finish
    dsimp only
    cases hrun : (edits ⟨options, resolver, w₁.module, type, plan⟩ called
      (plan.anchors body.code).1 subscription).run.run { body, serial := w₁.module.serial } with
    | mk result draft => cases result <;> rfl
  unfold setter
  rw [hset, Steps.bind_run, hget]
  dsimp only
  simp only [hd, Option.bind_some, hbody]
  rw [Steps.bind_run, hfollowed]
  dsimp only
  -- nothing to follow: the edits are made in the module as it was read
  cases followed with
  | none =>
    dsimp only
    rw [Steps.bind_run, hpure]
    exact hedited _ none { w with capabilities }
  | some f =>
    obtain ⟨field, event⟩ := f
    have hhandler : (handler fun n => ⟨options, resolver, n, type, plan⟩).run.run { w with capabilities }
        = match (⟨options, resolver, w.module, type, plan⟩ : BlockContext).declareHandler with
          | .ok (h, n) => (.ok h, ⟨n, capabilities⟩)
          | .error e => (.error e, { w with capabilities }) := rfl
    rw [Steps.bind_run, hhandler]
    cases (⟨options, resolver, w.module, type, plan⟩ : BlockContext).declareHandler with
    | error e => rfl
    | ok declared =>
      obtain ⟨h, n⟩ := declared
      dsimp only
      rw [Steps.bind_run, hpure]
      exact hedited _ (some (field, event, h)) ⟨n, capabilities⟩

theorem steps_of_setter (hset : plan.property.setter = some i) (hd : w.module.method? i = some d)
    (hbody : d.body = some body) {followed : Option (Field × Event)} {capabilities : CapabilityCache}
    (hfollowed : (subscription? options type plan (plan.anchors body.code).2).run.run w
      = (.ok followed, { w with capabilities })) {result : Except Error WovenSetter}
    (hrun : (setter options resolver type plan).run.run w = (result, w')) :
    ((∃ e, result = .error e) ∧ w'.module = w.module)
      ∨ ∃ n subscription, Subscription (⟨options, resolver, ·, type, plan⟩) w.module followed subscription n
        ∧ finish options resolver type plan i body (calledHooks w.module plan body.code) subscription
          ⟨n, capabilities⟩ = (result, w') := by
  rw [setter_eq resolver hset hd hbody hfollowed] at hrun
  cases followed with
  | none => exact .inr ⟨w.module, none, ⟨rfl, rfl⟩, hrun⟩
  | some f =>
    rw [Option.elim_some] at hrun
    cases hdeclare : (⟨options, resolver, w.module, type, plan⟩ : BlockContext).declareHandler with
    | error e =>
      rw [hdeclare] at hrun
      obtain ⟨rfl, rfl⟩ := Prod.mk.inj hrun
      exact .inl ⟨⟨e, rfl⟩, rfl⟩
    | ok declared =>
      obtain ⟨h, n⟩ := declared
      rw [hdeclare] at hrun
      exact .inr ⟨n, some (f.1, f.2, h), ⟨h, rfl, hdeclare⟩, hrun⟩

/-- Weaving a setter fails and leaves the module as it was, or gets to the edits of the body. -/
theorem setter_cases {result : Except Error WovenSetter}
    (hrun : (setter options resolver type plan).run.run w = (result, w')) :
    ((∃ e, result = .error e) ∧ w'.module = w.module)
      ∨ ∃ i d body n capabilities subscription, plan.property.setter = some i ∧ w.module.method? i = some d
        ∧ d.body = some body
        ∧ Subscription (⟨options, resolver, ·, type, plan⟩) w.module (followed? options type plan w body.code)
          subscription n
        ∧ finish options resolver type plan i body (calledHooks w.module plan body.code) subscription
          ⟨n, capabilities⟩ = (result, w') := by
  by_cases hhas : plan.HasBody w.module
  · obtain ⟨i, d, body, hset, hd, hbody⟩ := hhas
    obtain ⟨capabilities, hfollowed⟩ := subscription?_run options type plan body.code w
    rcases steps_of_setter hset hd hbody hfollowed hrun with hfailed | ⟨n, subscription, hsubscription, hfinish⟩
    · exact .inl hfailed
    · exact .inr ⟨i, d, body, n, capabilities, subscription, hset, hd, hbody, hsubscription, hfinish⟩
  · obtain ⟨e, herror⟩ := setter_of_not_hasBody options resolver type hhas
    obtain ⟨rfl, rfl⟩ := Prod.mk.inj (herror.symm.trans hrun)
    exact .inl ⟨⟨e, rfl⟩, rfl⟩

section Woven

variable {woven : WovenSetter} (hset : plan.property.setter = some i) (hd : w.module.method? i = some d)
  (hbody : d.body = some body)
include hset hd hbody

theorem finish_of_run {followed : Option (Field × Event)} {capabilities : CapabilityCache}
    (hfollowed : (subscription? options type plan (plan.anchors body.code).2).run.run w
      = (.ok followed, { w with capabilities }))
    (hrun : (setter options resolver type plan).run.run w = (.ok woven, w')) :
    ∃ n subscription, Subscription (⟨options, resolver, ·, type, plan⟩) w.module followed subscription n
      ∧ finish options resolver type plan i body (calledHooks w.module plan body.code) subscription
        ⟨n, capabilities⟩ = (.ok woven, w') :=
  (steps_of_setter hset hd hbody hfollowed hrun).resolve_left fun ⟨⟨_, herror⟩, _⟩ => nomatch herror

theorem finish_of_setter (hrun : (setter options resolver type plan).run.run w = (.ok woven, w')) :
    ∃ n capabilities subscription, Subscription (⟨options, resolver, ·, type, plan⟩) w.module
        (followed? options type plan w body.code) subscription n
      ∧ finish options resolver type plan i body (calledHooks w.module plan body.code) subscription
        ⟨n, capabilities⟩ = (.ok woven, w') := by
  obtain ⟨capabilities, hfollowed⟩ := subscription?_run options type plan body.code w
  obtain ⟨n, subscription, hsubscription, hfinish⟩ := finish_of_run hset hd hbody hfollowed hrun
  exact ⟨n, capabilities, subscription, hsubscription, hfinish⟩

end Woven

end Steps

/-! ## The layout of a woven setter -/

namespace Subscription

variable {m n : Module} {followed : Option (Field × Event)} {subscription : Option (Field × Event × MethodId)}

theorem isSome_iff {ctx : Module → BlockContext} (h : Subscription ctx m followed subscription n) :
    subscription.isSome = true ↔ followed.isSome = true := by
  cases followed with
  | none => simp [h.1]
  | some f =>
    obtain ⟨i, rfl, -⟩ := h
    simp

theorem method? (h : Subscription (⟨options, resolver, ·, type, plan⟩) m followed subscription n)
    {i : MethodId} {d : Method} (hd : m.method? i = some d) : n.method? i = some d := by
  cases followed with
  | none => rwa [h.2]
  | some f =>
    obtain ⟨j, -, hdeclare⟩ := h
    exact method?_declareHandler hdeclare hd

end Subscription

theorem isSome_of_followed? {w : Workpiece} {code : Stream}
    (h : (followed? options type plan w code).isSome = true) : (plan.anchors code).2 = true := by
  unfold followed? at h
  split at h
  · rename_i hstores
    exact hstores
  · cases h

private theorem finish_layout {w w' : Workpiece} {woven : WovenSetter} {method : MethodId} {d : Method}
    (hmethod : w.module.method? method = some d)
    (hpos : subscription.isSome → (plan.anchors body.code).2 = true)
    (hrun : finish options resolver type plan method body called subscription w = (.ok woven, w')) :
    ∃ before result, ∃ l : Layout ⟨options, resolver, w.module, type, plan⟩ subscription called
        (plan.anchors body.code).1 before,
      (w'.module.method? method).bind (·.body) = some result
        ∧ w'.module = { w.module.setBody method (some result) with serial := w'.module.serial }
        ∧ result.code = l.weave body.code
        ∧ (∃ count, w'.module.serial = w.module.serial + count
          ∧ ((l.injected body.code).map (·.label)).Perm
            ((List.range' w.module.serial count).map .drawn))
        ∧ ∃ new, result.slots = body.slots ++ new
          ∧ (storedSlots ((l.injected body.code).map (·.op))).Perm
            ((List.range' body.slots.length new.length).map UInt16.ofNat) := by
  obtain ⟨hresult, rfl⟩ := Prod.mk.inj hrun
  cases hsteps : (edits ⟨options, resolver, w.module, type, plan⟩ called (plan.anchors body.code).1
      subscription).run.run { body, serial := w.module.serial } with
  | mk result draft =>
    rw [hsteps] at hresult
    cases result with
    | error e => cases hresult
    | ok u =>
      obtain ⟨before, l, hcode, ⟨count, hserial, hlabels⟩, new, hslots, hstored⟩ :=
        edits_layout (plan.pairwise_anchors body.code)
          (fun a ha => PropertyPlan.le_length_of_mem_anchors ha)
          (plan.anchors_ne_nil body.code)
          (fun hs a ha => PropertyPlan.pos_of_mem_anchors (hpos hs) ha) hsteps
      exact ⟨before, draft.body, l, body_setBody hmethod draft.body draft.serial, rfl, hcode,
        ⟨count, hserial, hlabels⟩, new, hslots, hstored⟩

/-- The setter's body in `w'` is a layout of `body`, and nothing else of the module has changed but for
the handler that was declared. The labels of the inserted code are drawn from the module's supply, each
once, and the slots it stores into are the new ones, each once. -/
def LaidOut (options : Options) (resolver : Resolver) (type : TypePlan) (plan : PropertyPlan)
    (w w' : Workpiece) (method : MethodId) (body : Body) : Prop :=
  ∃ m subscription before result, ∃ l : Layout ⟨options, resolver, m, type, plan⟩ subscription
      ((plan.targets.map (hookName ·.name)).filter (w.module.containsCallTo body.code))
      (plan.anchors body.code).1 before,
    Subscription (⟨options, resolver, ·, type, plan⟩) w.module
        (followed? options type plan w body.code) subscription m
      ∧ (w'.module.method? method).bind (·.body) = some result
      ∧ w'.module = { m.setBody method (some result) with serial := w'.module.serial }
      ∧ result.code = l.weave body.code
      ∧ (∃ count, w'.module.serial = m.serial + count
        ∧ ((l.injected body.code).map (·.label)).Perm
          ((List.range' m.serial count).map .drawn))
      ∧ ∃ new, result.slots = body.slots ++ new
        ∧ (result.slots.length ≤ 65536 →
          ((storedSlots ((l.injected body.code).map (·.op))).map (·.toNat)).Perm
            (List.range' body.slots.length new.length))

/-- What weaving a setter leaves is laid out, and the indices of the slots it stores into are those of the new
ones as far as they are within reach. -/
theorem setter_stores {w w' : Workpiece} {woven : WovenSetter} {method : MethodId}
    (hsetter : plan.property.setter = some method)
    (hbody : (w.module.method? method).bind (·.body) = some body)
    (hrun : (setter options resolver type plan).run.run w = (.ok woven, w')) :
    ∃ m subscription before result, ∃ l : Layout ⟨options, resolver, m, type, plan⟩ subscription
        ((plan.targets.map (hookName ·.name)).filter (w.module.containsCallTo body.code))
        (plan.anchors body.code).1 before,
      Subscription (⟨options, resolver, ·, type, plan⟩) w.module
          (followed? options type plan w body.code) subscription m
        ∧ (w'.module.method? method).bind (·.body) = some result
        ∧ w'.module = { m.setBody method (some result) with serial := w'.module.serial }
        ∧ result.code = l.weave body.code
        ∧ (∃ count, w'.module.serial = m.serial + count
          ∧ ((l.injected body.code).map (·.label)).Perm
            ((List.range' m.serial count).map .drawn))
        ∧ ∃ new, result.slots = body.slots ++ new
          ∧ (storedSlots ((l.injected body.code).map (·.op))).Perm
            ((List.range' body.slots.length new.length).map UInt16.ofNat) := by
  obtain ⟨d, hmethod, hd⟩ := Option.bind_eq_some_iff.mp hbody
  obtain ⟨m, capabilities, subscription, hsubscription, hfinish⟩ := finish_of_setter hsetter hmethod hd hrun
  obtain ⟨before, result, l, hresult⟩ := finish_layout (hsubscription.method? hmethod)
    (fun h => isSome_of_followed? (hsubscription.isSome_iff.mp h)) hfinish
  exact ⟨m, subscription, before, result, l, hsubscription, hresult⟩

/-- As long as the slots can be addressed, the indices are those of the new slots, each once. -/
theorem toNat_perm_of_fits {stored : List UInt16} {first count : Nat}
    (hstored : stored.Perm ((List.range' first count).map UInt16.ofNat)) (hfit : first + count ≤ 65536) :
    (stored.map (·.toNat)).Perm (List.range' first count) := by
  have hnumbers : ((List.range' first count).map UInt16.ofNat).map (·.toNat) = List.range' first count := by
    rw [List.map_map]
    refine (List.map_congr_left fun n hn => ?_).trans (List.map_id _)
    obtain ⟨-, hlt⟩ := List.mem_range'_1.mp hn
    show (UInt16.ofNat n).toNat = n
    rw [UInt16.toNat_ofNat', Nat.mod_eq_of_lt (by omega)]
  rw [← hnumbers]
  exact hstored.map fun slot => slot.toNat

/-- What weaving a setter leaves is laid out. -/
theorem laidOut_setter {w w' : Workpiece} {woven : WovenSetter} {method : MethodId}
    (hsetter : plan.property.setter = some method)
    (hbody : (w.module.method? method).bind (·.body) = some body)
    (hrun : (setter options resolver type plan).run.run w = (.ok woven, w')) :
    LaidOut options resolver type plan w w' method body := by
  obtain ⟨m, subscription, before, result, l, hsubscription, hresult, hmodule, hcode, hlabels, new, hslots,
    hstored⟩ := setter_stores hsetter hbody hrun
  refine ⟨m, subscription, before, result, l, hsubscription, hresult, hmodule, hcode, hlabels, new, hslots,
    fun hfit => toNat_perm_of_fits hstored ?_⟩
  rw [hslots, List.length_append] at hfit
  exact hfit

/-- Weaving a setter is one insertion into its unedited body, at all positions at once: the code in front,
and then for each position the block that belongs there and the instruction that was there. -/
theorem setter_layout {w w' : Workpiece} {woven : WovenSetter} {method : MethodId}
    (hsetter : plan.property.setter = some method)
    (hbody : (w.module.method? method).bind (·.body) = some body)
    (hrun : (setter options resolver type plan).run.run w = (.ok woven, w')) :
    ∃ m subscription before result, ∃ l : Layout ⟨options, resolver, m, type, plan⟩ subscription
        ((plan.targets.map (hookName ·.name)).filter (w.module.containsCallTo body.code))
        (plan.anchors body.code).1 before,
      Subscription (⟨options, resolver, ·, type, plan⟩) w.module
          (followed? options type plan w body.code) subscription m
        ∧ w'.module = { m.setBody method (some result) with serial := w'.module.serial }
        ∧ (w'.module.method? method).bind (·.body) = some result
        ∧ result.code = l.prologue ++ (List.range (body.code.length + 1)).flatMap (fun p =>
          (if (plan.anchors body.code).1.head?.map (BlockContext.storePosition body.code) = some p
            then l.unsubscribe else [])
          ++ (if (plan.anchors body.code).1.head? = some p then l.subscribe else [])
          ++ (if p ∈ (plan.anchors body.code).1 then l.notification p else [])
          ++ body.code[p]?.toList)
        ∧ (∃ count, w'.module.serial = m.serial + count
          ∧ ((l.injected body.code).map (·.label)).Perm
            ((List.range' m.serial count).map .drawn))
        ∧ ∃ new, result.slots = body.slots ++ new
          ∧ (result.slots.length ≤ 65536 →
            ((storedSlots ((l.injected body.code).map (·.op))).map (·.toNat)).Perm
              (List.range' body.slots.length new.length)) := by
  obtain ⟨m, subscription, before, result, l, hsubscription, hresult, hmodule, hcode, hlabels,
    hslots⟩ := laidOut_setter hsetter hbody hrun
  refine ⟨m, subscription, before, result, l, hsubscription, hmodule, hresult, ?_, hlabels,
    hslots⟩
  rw [hcode, Layout.weave, Stream.interleave_eq_flatMap]
  rfl

end Weaving

/-! ## A setter with two stores, one of which may be skipped -/

namespace Chain

def classOf (name : String) : TypeDef :=
  { token := ⟨0⟩, space := "", name, flavor := .classType, external := false }

def methodOf (name : String) (body : Option Body) : Method :=
  { token := ⟨0⟩, name, access := .publicAccess, modifiers := .hideBySig, params := [],
    returns := none, body }

/-- The field behind the property `Next` of a node, which holds a node. -/
def next : Field := ⟨⟨0⟩, "<Next>k__BackingField", .privateBit, ⟨1⟩⟩

def changed : Event := ⟨⟨0⟩, "PropertyChanged", ⟨3⟩, some ⟨2⟩, some ⟨3⟩⟩

/-- Store the argument unless it is null, and clear the field at last. -/
def setNext : Body :=
  .ofCode [⟨.written 1, .ldarg 1⟩, ⟨.written 2, .branch .brfalse (.written 6)⟩,
    ⟨.written 3, .ldarg 0⟩, ⟨.written 4, .ldarg 1⟩, ⟨.written 5, .stfld next⟩,
    ⟨.written 6, .ldarg 0⟩, ⟨.written 7, .ldflda next⟩, ⟨.written 8, .initobj ⟨1⟩⟩,
    ⟨.written 9, .ret⟩]

def module : Module where
  name := "Chain"
  types := #[some (classOf "Object"),
    some { classOf "Node" with interfaces := [⟨2⟩, ⟨4⟩], events := [changed] },
    some (classOf "INotifyPropertyChanged"), some (classOf "PropertyChangedEventHandler"),
    some (classOf "INotifyPropertyChangedContent")]
  methods := #[some (methodOf "get_Next" none), some (methodOf "set_Next" (some setNext)),
    some (methodOf "add_PropertyChanged" none), some (methodOf "remove_PropertyChanged" none),
    some (methodOf "OnPropertyChanged" none)]

def resolver : Resolver where
  objectType := fun _ => .ok ⟨0⟩
  objectEquals := fun _ => .ok ⟨7⟩
  handlerConstructor := fun _ => .ok ⟨8⟩
  eventArgsType := fun _ => .ok ⟨0⟩
  eventArgsConstructor := fun _ => .ok ⟨9⟩

def property : PropertyPlan where
  property := ⟨⟨0⟩, "Next", ⟨1⟩, some ⟨0⟩, some ⟨1⟩, []⟩
  backing := some next

def type : TypePlan := { type := ⟨1⟩, invoker := .beforeAfter ⟨4⟩ }

def woven : Except Error WovenSetter × Workpiece :=
  (Weaving.setter {} resolver type property).run.run ⟨module, {}⟩

/-- The woven body. -/
def result : Body := ((woven.2.module.method? ⟨1⟩).bind (·.body)).get (by decide +kernel)

theorem woven_eq : woven = (.ok ⟨[5, 8], 2, some ⟨5⟩⟩, woven.2) := by
  have hfirst : woven.1 = .ok ⟨[5, 8], 2, some ⟨5⟩⟩ := by decide +kernel
  rw [← hfirst]

theorem result_eq : (woven.2.module.method? ⟨1⟩).bind (·.body) = some result := (Option.some_get _).symm

theorem nodup_result : result.code.Nodup := by decide +kernel

/-- The handler is taken back in front of the first store and given behind it, and both stores are announced. -/
def block (p : Nat) : List Instruction :=
  if p = 4 then result.code.extract 7 19
  else if p = 5 then result.code.extract 20 40
  else if p = 8 then result.code.extract 43 51
  else []

section Parts

variable {ctx : BlockContext} {subscription : Option (Field × Event × MethodId)}
  {called : List String} {before : String → Bool → UInt16}
  (l : Layout ctx subscription called (property.anchors setNext.code).1 before)

/-- No instruction comes twice, so the parts are found by where the old instructions are. -/
theorem parts_eq (hcode : result.code = l.weave setNext.code) :
    l.prologue = result.code.extract 0 3 ∧ l.block setNext.code = block := by
  have hplace (p x : Nat) := l.place_of_nodup hcode nodup_result (p := p) (x := x)
  have hblock : ∀ p x y, p < setNext.code.length → result.code[x]? = setNext.code[p]? →
      result.code[y]? = setNext.code[p + 1]? → p + 1 < setNext.code.length →
        l.block setNext.code (p + 1) = result.code.extract (x + 1) y := by
    intro p x y hp hx hy hlt
    rw [← l.extract_block (Nat.le_of_lt hlt), l.start_succ, hplace p x hp hx, hplace (p + 1) y hlt hy, hcode]
  have hanchors : (property.anchors setNext.code).1 = [5, 8] := by decide +kernel
  have hstore : (property.anchors setNext.code).1.head?.map (BlockContext.storePosition setNext.code)
      = some 4 := by decide +kernel
  have hempty : ∀ p, p ≠ 4 → p ≠ 5 → p ≠ 8 → l.block setNext.code p = [] := by
    intro p h4 h5 h8
    have hout : ¬ (property.anchors setNext.code).1.head?.map (BlockContext.storePosition setNext.code)
        = some p := by
      rw [hstore]
      exact fun h => h4 (Option.some.inj h).symm
    have hhead : ¬ (property.anchors setNext.code).1.head? = some p := by
      rw [hanchors]
      exact fun h => h5 (Option.some.inj h).symm
    have hmem : p ∉ (property.anchors setNext.code).1 := by
      rw [hanchors]
      simp [h5, h8]
    unfold Layout.block
    rw [if_neg hout, if_neg hhead, if_neg hmem]
    rfl
  refine ⟨?_, funext fun p => ?_⟩
  · have hstart : l.start setNext.code 0 = 3 := by
      have hlength := l.place_eq setNext.code 0
      rw [hempty 0 (by decide) (by decide) (by decide), List.length_nil, Nat.add_zero] at hlength
      rw [← hlength, hplace 0 3 (by decide) (by decide +kernel)]
    rw [← l.extract_prologue, hstart, hcode]
  · unfold block
    split
    · next h => exact h ▸ hblock 3 6 19 (by decide) (by decide +kernel) (by decide +kernel) (by decide)
    split
    · next h => exact h ▸ hblock 4 19 40 (by decide) (by decide +kernel) (by decide +kernel) (by decide)
    split
    · next h => exact h ▸ hblock 7 42 51 (by decide) (by decide +kernel) (by decide +kernel) (by decide)
    · exact hempty p ‹_› ‹_› ‹_›

end Parts

end Chain

namespace Weaving

/-- A setter that follows its value and announces itself behind both stores. -/
theorem setter_layout_chain :
    Chain.woven.1 = .ok ⟨[5, 8], 2, some ⟨5⟩⟩
      ∧ (Chain.woven.2.module.method? ⟨1⟩).bind (·.body) = some Chain.result
      ∧ Chain.result.code = Chain.result.code.extract 0 3 ++ (List.range 10).flatMap (fun p =>
        Chain.block p ++ Chain.setNext.code[p]?.toList) := by
  have hset : Chain.property.property.setter = some ⟨1⟩ := rfl
  have hbody : (Chain.module.method? ⟨1⟩).bind (·.body) = some Chain.setNext := rfl
  obtain ⟨m, subscription, before, result, l, -, -, hresult, hcode, -⟩ :=
    @setter_layout {} Chain.resolver Chain.type Chain.property Chain.setNext ⟨Chain.module, {}⟩ Chain.woven.2 _ ⟨1⟩
      hset hbody Chain.woven_eq
  rw [Chain.result_eq] at hresult
  obtain rfl : Chain.result = result := Option.some.inj hresult
  have hweave : Chain.result.code = l.weave Chain.setNext.code := by
    rw [Layout.weave, Stream.interleave_eq_flatMap]
    exact hcode
  obtain ⟨hfront, hblock⟩ := Chain.parts_eq l hweave
  refine ⟨by rw [Chain.woven_eq], Chain.result_eq, ?_⟩
  rw [← hfront, ← hblock]
  exact hcode

end Weaving

end SetterLoom
