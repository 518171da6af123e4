import SetterLoom.Proofs.Weave.Kinds

/-!
# What a failed weave leaves

Weaving takes nothing back. That a setter has no body, or that its handler cannot be declared, is found out
before anything is changed. A failure behind that leaves the handler with the type, and in the setter what was
put in until then; this is no code where the code for the first anchor could not be made.

* `Weaving.Left`: what a weave makes of the module that fails, by how far it got.
* `failed_only_adds`: every weave of a property that fails.
-/

namespace SetterLoom
set_option autoImplicit false

namespace BlockContext

variable {ctx : BlockContext} {d draft : Draft} {cause : Error}

/-- Making code does not put it in. -/
theorem makes_sameCode : Draft.Makes fun d d' => d'.body.code = d.body.code where
  refl _ := rfl
  trans h h' := h'.trans h
  addSlot _ _ := rfl
  addCapture _ _ _ := rfl
  labelled _ _ := rfl

/-- The edits end with the code for the first anchor, if it cannot be made. -/
theorem edits_of_targetBlocks {called : List String} {anchors : List Nat} (hanchors : anchors ≠ [])
    (subscription : Option (Field × Event × MethodId))
    (h : (ctx.targetBlocks called ctx.property.targets).run.run d = (.error cause, draft)) :
    (Weaving.edits ctx called anchors subscription).run.run d = (.error cause, draft) := by
  have hblock : ∀ anchor, (ctx.weaveAnchor called anchor).run.run d = (.error cause, draft) := by
    intro anchor
    unfold weaveAnchor changeBlock
    rw [Steps.bind_run, Steps.bind_run, h]
  rw [Weaving.edits_eq, Steps.bind_run]
  -- the edits begin with the last anchor
  cases hlast : anchors.reverse with
  | nil => exact absurd (List.reverse_eq_nil_iff.mp hlast) hanchors
  | cons last rest => rw [List.forM_eq_forM, List.forM_cons, Steps.bind_run, hblock]

end BlockContext

namespace Weaving

variable {options : Options} {resolver : Resolver} {type : TypePlan} {plan : PropertyPlan}
  {w w' : Workpiece} {e : Error}

/-- What is left of the setter and of the module if the body was to be edited in the module `n`: the setter has
what it had, in its order, and perhaps more; the type has the handler more, if there is one, and all else is as
it was. -/
structure Broken (ctx : Module → BlockContext) (m n m' : Module) (i : MethodId) (d : Method) (body result : Body)
    (handler : Option MethodId) (e : Error) : Prop where
  setter : m'.method? i = some { d with body := some result }
  code : body.code.Sublist result.code
  slots : body.slots <+: result.slots
  gains : m.Gains m' i (ctx m).type.type handler.toList
  others : ∀ j, j ≠ i → handler ≠ some j → m'.method? j = m.method? j
  handler : ∀ h, handler = some h → m.method? h = none ∧ ∃ d, m'.method? h = some d
    ∧ d.name = delegateName (ctx m).property.property.name ∧ (ctx m).Handles d
  first : ∀ cause draft, ((ctx n).targetBlocks (calledHooks m (ctx n).property body.code)
      (ctx n).property.targets).run.run { body, serial := n.serial } = (.error cause, draft) →
    e = cause ∧ result = draft.body ∧ result.code = body.code

/-- What a weave leaves that fails. -/
inductive Left (options : Options) (resolver : Resolver) (type : TypePlan) (plan : PropertyPlan)
    (w w' : Workpiece) (e : Error) : Prop
  /-- There is no body that could be edited. -/
  | bodiless (hasNone : ¬ plan.HasBody w.module) (same : w'.module = w.module) :
    Left options resolver type plan w w' e
  /-- The property is followed, and its handler could not be declared. -/
  | undeclared {i : MethodId} {d : Method} {body : Body} {event : Field × Event}
    (setter : plan.property.setter = some i) (method : w.module.method? i = some d)
    (body_eq : d.body = some body) (followed : followed? options type plan w body.code = some event)
    (refused : (⟨options, resolver, w.module, type, plan⟩ : BlockContext).declareHandler = .error e)
    (same : w'.module = w.module) : Left options resolver type plan w w' e
  /-- The handler was declared if the property is followed, and then the body was edited. -/
  | edited {i : MethodId} {d : Method} {body result : Body} {n : Module}
    {subscription : Option (Field × Event × MethodId)} (setter : plan.property.setter = some i)
    (method : w.module.method? i = some d) (body_eq : d.body = some body)
    (declared : Subscription (⟨options, resolver, ·, type, plan⟩) w.module
      (followed? options type plan w body.code) subscription n)
    (broken : Broken (⟨options, resolver, ·, type, plan⟩) w.module n w'.module i d body result
      (subscription.map (·.2.2)) e) : Left options resolver type plan w w' e

section Finish

variable {i : MethodId} {d : Method} {body : Body} {n : Module}
  {subscription : Option (Field × Event × MethodId)} {followed : Option (Field × Event)}
  (hd : w.module.method? i = some d)
  (hsubscription : Subscription (⟨options, resolver, ·, type, plan⟩) w.module followed subscription n)
include hd hsubscription

theorem gains_of_subscription :
    w.module.Gains n i type.type (subscription.map (·.2.2)).toList
      ∧ (∀ j, subscription.map (·.2.2) ≠ some j → n.method? j = w.module.method? j)
      ∧ ∀ h, subscription.map (·.2.2) = some h → i ≠ h ∧ w.module.method? h = none
        ∧ ∃ d, n.method? h = some d ∧ d.name = delegateName plan.property.name
          ∧ (⟨options, resolver, w.module, type, plan⟩ : BlockContext).Handles d := by
  cases followed with
  | none =>
    obtain ⟨rfl, rfl⟩ := hsubscription
    exact ⟨.none w.module i type.type, fun _ _ => rfl, fun _ h => nomatch h⟩
  | some followed =>
    obtain ⟨handler, rfl, hdeclare⟩ := hsubscription
    obtain ⟨-, hnone, d, hname, hhandles, hmethods⟩ := BlockContext.exists_declareHandler hdeclare
    refine ⟨gains_declareHandler hdeclare i, fun j hj => ?_, fun h hh => ?_⟩
    · rw [hmethods, if_neg fun heq => hj (congrArg some heq.symm)]
    · obtain rfl := Option.some.inj hh
      refine ⟨?_, hnone, d, by rw [hmethods, if_pos rfl], hname, hhandles⟩
      rintro rfl
      rw [hnone] at hd
      cases hd

theorem broken_of_finish {capabilities : CapabilityCache} {result : Except Error WovenSetter}
    (hfinish : finish options resolver type plan i body (calledHooks w.module plan body.code) subscription
      ⟨n, capabilities⟩ = (result, w')) (hresult : ∀ e', result = .error e' → e' = e) :
    ∃ result, Broken (⟨options, resolver, ·, type, plan⟩) w.module n w'.module i d body result
      (subscription.map (·.2.2)) e := by
  obtain ⟨hgains, hothers, hhandler⟩ := gains_of_subscription hd hsubscription
  obtain ⟨-, hkept⟩ := hsubscription.kept rfl
  have hfuller := adds_edits ⟨options, resolver, n, type, plan⟩ (calledHooks w.module plan body.code)
    (plan.anchors body.code).1 subscription { body, serial := n.serial }
  obtain ⟨houtcome, hstate⟩ := Prod.mk.inj hfinish
  rw [← hstate]
  refine ⟨_, Module.method?_setBody (hkept i d hd) _, hfuller.code, hfuller.slots, hgains.setBody _ _,
    fun j hj hh => ?_, fun h hh => ?_, fun cause draft hblocks => ?_⟩
  · exact (Module.method?_setBody_of_ne n (Ne.symm hj) _).trans (hothers j hh)
  · obtain ⟨hne, hnone, d, hd, hname, hhandles⟩ := hhandler h hh
    exact ⟨hnone, d, (Module.method?_setBody_of_ne n hne _).trans hd, hname, hhandles⟩
  · have hedits := BlockContext.edits_of_targetBlocks (plan.anchors_ne_nil body.code) subscription hblocks
    have hcode := BlockContext.makes_sameCode.targetBlocks ⟨options, resolver, n, type, plan⟩ (fun _ => rfl)
      (calledHooks w.module plan body.code) plan.targets { body, serial := n.serial }
    rw [hblocks] at hcode
    rw [hedits] at houtcome ⊢
    exact ⟨(hresult cause houtcome.symm).symm, rfl, hcode⟩

end Finish

theorem left_of_failed (hfailed : (checkedSetter options resolver type plan).run.run w = (.error e, w')) :
    Left options resolver type plan w w' e := by
  have hstate : ((checkedSetter options resolver type plan).run.run w).2
      = ((setter options resolver type plan).run.run w).2 := checkedSetter_state w
  cases hrun : (setter options resolver type plan).run.run w with
  | mk result w₁ =>
    rw [hfailed, hrun] at hstate
    obtain rfl : w' = w₁ := hstate
    -- the check may fail behind a setter that was woven, but a setter that fails is not checked
    have hresult : ∀ e', result = .error e' → e' = e := by
      rintro e' rfl
      unfold checkedSetter at hfailed
      rw [Steps.bind_run, hrun] at hfailed
      exact Except.error.inj (Prod.mk.inj hfailed).1
    by_cases hhas : plan.HasBody w.module
    · obtain ⟨i, d, body, hset, hd, hbody⟩ := hhas
      obtain ⟨capabilities, hfollowed⟩ := subscription?_run options type plan body.code w
      rw [setter_eq resolver hset hd hbody hfollowed] at hrun
      have hedited : ∀ {n subscription},
          Subscription (⟨options, resolver, ·, type, plan⟩) w.module (followed? options type plan w body.code)
            subscription n →
          finish options resolver type plan i body (calledHooks w.module plan body.code) subscription
            ⟨n, capabilities⟩ = (result, w') → Left options resolver type plan w w' e := by
        intro n subscription hsubscription hfinish
        obtain ⟨_, hbroken⟩ := broken_of_finish hd hsubscription hfinish hresult
        exact .edited hset hd hbody hsubscription hbroken
      cases hevent : followed? options type plan w body.code with
      | none =>
        rw [hevent] at hrun hedited
        exact hedited ⟨rfl, rfl⟩ hrun
      | some event =>
        rw [hevent, Option.elim_some] at hrun
        cases hdeclare : (⟨options, resolver, w.module, type, plan⟩ : BlockContext).declareHandler with
        | error cause =>
          rw [hdeclare] at hrun
          obtain ⟨rfl, rfl⟩ := Prod.mk.inj hrun
          obtain rfl := hresult cause rfl
          exact .undeclared hset hd hbody hevent hdeclare rfl
        | ok declared =>
          obtain ⟨h, n⟩ := declared
          rw [hdeclare] at hrun
          rw [hevent] at hedited
          exact hedited ⟨h, rfl, hdeclare⟩ hrun
    · obtain ⟨cause, hnone⟩ := setter_of_not_hasBody options resolver type hhas
      obtain ⟨-, rfl⟩ := Prod.mk.inj (hnone.symm.trans hrun)
      exact .bodiless hhas rfl

/-- A weave of a property that fails leaves the setter unmarked and takes back nothing that it did. Without a body
to edit, or without a handler that is asked for, it did nothing. Else the setter has all its instructions and
slots, in their order, and perhaps some more; the type has the handler more if the property is followed; and
all other methods are as they were. -/
theorem failed_only_adds {typeName : String} {summary : WeaveSummary}
    (hrun : (property options resolver typeName type summary plan).run.run w = (.error e, w')) :
    isMarked w'.module plan.property = false
      ∧ ∃ cause, e = .weave typeName plan.property.name cause
        ∧ Left options resolver type plan w w' cause := by
  rcases property_cases hrun with ⟨-, hresult, -⟩ |
    ⟨hunmarked, ⟨cause, hfailed, hresult⟩ | ⟨_, _, _, -, -, hresult, -⟩⟩
  · cases hresult
  · exact ⟨(isMarked_touched (touched_checkedSetter hfailed)).trans hunmarked, cause, Except.error.inj hresult,
      left_of_failed hfailed⟩
  · cases hresult

/-- A resolver that finds no constructor of handlers. -/
def Chain.halting : Resolver :=
  { Chain.resolver with handlerConstructor := fun _ => .error (.unresolved Surface.eventHandler) }

/-- The weave of a node's property when no constructor of handlers is found. -/
def Chain.halted : Except Error WeaveSummary × Workpiece :=
  (property {} Chain.halting "Node" Chain.type {} Chain.property).run.run ⟨Chain.module, {}⟩

/-- The weave of the same property after that, when the constructor is found. -/
def Chain.resumed : Except Error WeaveSummary × Workpiece :=
  (property {} Chain.resolver "Node" Chain.type {} Chain.property).run.run Chain.halted.2

/-- The handler was declared and both stores announce the property when the weave of a node fails. -/
theorem failed_only_adds_chain :
    Chain.halted.1 = .error (.weave "Node" "Next" (.unresolved Surface.eventHandler))
      ∧ isMarked Chain.halted.2.module Chain.property.property = false
      ∧ Left {} Chain.halting Chain.type Chain.property ⟨Chain.module, {}⟩ Chain.halted.2
        (.unresolved Surface.eventHandler) := by
  have hresult : Chain.halted.1
      = .error (.weave "Node" "Next" (.unresolved Surface.eventHandler)) := by decide +kernel
  have hrun : Chain.halted
      = (.error (.weave "Node" "Next" (.unresolved Surface.eventHandler)), Chain.halted.2) := by
    rw [← hresult]
  obtain ⟨hunmarked, cause, hcause, hleft⟩ := failed_only_adds hrun
  obtain rfl : .unresolved Surface.eventHandler = cause := (Error.weave.inj hcause).2.2
  exact ⟨hresult, hunmarked, hleft⟩

/-- Neither the code nor the slots of the setter nor the methods of the type are what they were before a
weave that failed, and a second weave that finds the constructor makes a longer body than it would have
made of the setter at first. -/
theorem failed_not_undone :
    Chain.halted.1 = .error (.weave "Node" "Next" (.unresolved Surface.eventHandler))
      ∧ Chain.setNext.code.length = 9 ∧ Chain.setNext.slots = []
      ∧ (Chain.module.type? ⟨1⟩).map (·.methods) = some []
      ∧ ((Chain.halted.2.module.method? ⟨1⟩).bind (·.body)).map (·.code.length) = some 25
      ∧ ((Chain.halted.2.module.method? ⟨1⟩).bind (·.body)).map (·.slots) = some [⟨0⟩, ⟨0⟩, ⟨0⟩]
      ∧ (Chain.halted.2.module.type? ⟨1⟩).map (·.methods) = some [⟨5⟩]
      ∧ ((Chain.woven.2.module.method? ⟨1⟩).bind (·.body)).map (·.code.length) = some 52
      ∧ ((Chain.resumed.2.module.method? ⟨1⟩).bind (·.body)).map (·.code.length) = some 68 := by
  refine ⟨?_, ?_, ?_, ?_, ?_, ?_, ?_, ?_, ?_⟩ <;> decide +kernel

end Weaving

end SetterLoom
