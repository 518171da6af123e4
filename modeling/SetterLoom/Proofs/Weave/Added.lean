import SetterLoom.Proofs.Weave.Setter
import SetterLoom.Weave.Pass

/-!
# Edits only add

Edits keep what they did when a later step fails. Whether they succeed or not, they only add: labels are
drawn, slots are appended, and code is inserted between the instructions that were there. So weaving
leaves a setter with all its instructions, and perhaps with some more.

* `Draft.Makes`, `Draft.Keeps`: relations that the single steps keep.
* `adds_edits`, `adds_writeHandler`: the edits of a setter and of a handler.
* `touched_setter`: what weaving a setter leaves, whether or not it succeeds.
-/

namespace SetterLoom
set_option autoImplicit false

/-! ## What the single steps keep -/

namespace Draft

/-- A relation that the single steps keep by which code is made, other than counting a call. -/
structure Makes (R : Draft → Draft → Prop) : Prop where
  refl : ∀ d, R d d
  trans : ∀ {d d' d''}, R d d' → R d' d'' → R d d''
  addSlot : ∀ type, Steps.Within R (addSlot type)
  addCapture : ∀ c ops, Steps.Within R (addCapture c ops)
  labelled : ∀ ops, Steps.Within R (labelled ops)

/-- A relation that the steps keep too by which code is put in. -/
structure Keeps (R : Draft → Draft → Prop) : Prop extends Makes R where
  insert : ∀ position code, Steps.Within R (insert position code)
  append : ∀ code, Steps.Within R (append code)
  prepend : ∀ code, Steps.Within R (prepend code)

namespace Makes

variable {R : Draft → Draft → Prop} {α β : Type}

theorem bind (h : Makes R) {steps : Drafting α} {more : α → Drafting β} (hfirst : Steps.Within R steps)
    (hmore : ∀ a, Steps.Within R (more a)) : Steps.Within R (steps >>= more) :=
  Steps.within_bind (R := R) (fun hr hr' => h.trans hr hr') hfirst hmore

theorem pure (h : Makes R) (a : α) : Steps.Within R (Pure.pure a : Drafting α) := Steps.within_pure h.refl a

theorem throw (h : Makes R) (e : Error) : Steps.Within R (throw e : Drafting α) :=
  Steps.within_throw h.refl e

theorem get (h : Makes R) : Steps.Within R (MonadState.get : Drafting Draft) := Steps.within_get h.refl

theorem lift (h : Makes R) (x : Except Error α) : Steps.Within R (liftM x : Drafting α) :=
  Steps.within_lift h.refl x

end Makes

theorem Keeps.prependPrologue {R : Draft → Draft → Prop} (h : Keeps R) : Steps.Within R prependPrologue :=
  h.bind h.get fun d => h.bind (h.labelled d.prologue) fun code => h.prepend code

end Draft

namespace Draft.Makes

variable {R : Draft → Draft → Prop} (h : Draft.Makes R) (ctx : BlockContext)
include h

theorem targetType (target : Property) : Steps.Within R (ctx.targetType target) := by
  unfold BlockContext.targetType
  split
  · exact h.pure _
  · exact h.throw _

theorem readValue (target : Property) (boxed : Bool) : Steps.Within R (ctx.readValue target boxed) := by
  unfold BlockContext.readValue
  split
  · refine h.bind (h.targetType ctx target) fun d => ?_
    dsimp only
    split
    · exact h.bind (h.lift _) fun type => h.bind (h.addSlot type) fun _ => h.pure _
    · exact h.bind (h.pure target.type) fun type => h.bind (h.addSlot type) fun _ => h.pure _
  · exact h.throw _

theorem beforeSlot (source : BeforeSource) (target : Property) (boxed : Bool) (after : UInt16) :
    Steps.Within R (ctx.beforeSlot source target boxed after) := by
  unfold BlockContext.beforeSlot
  split
  · exact h.pure _
  · refine h.bind h.get fun d => ?_
    split
    · exact h.pure _
    · exact h.bind (h.readValue ctx target boxed) fun y =>
        h.bind (h.addCapture _ _) fun _ => h.pure _

theorem readBoth (source : BeforeSource) (target : Property) (boxed : Bool) :
    Steps.Within R (ctx.readBoth source target boxed) :=
  h.bind (h.readValue ctx target boxed) fun x =>
    h.bind (h.beforeSlot ctx source target boxed x.2) fun _ => h.pure _

theorem callInvoker (invoker : MethodId) (target : Property) :
    Steps.Within R (ctx.callInvoker invoker target) := by
  unfold BlockContext.callInvoker
  split
  · exact h.bind (h.targetType ctx target) fun _ => h.pure _
  · exact h.pure _

theorem invokerCall (source : BeforeSource) (target : Property) :
    Steps.Within R (ctx.invokerCall source target) := by
  have hvalues : ∀ boxed i, Steps.Within R (ctx.callWithValues source target boxed i) := fun boxed i =>
    h.bind (h.readBoth ctx source target boxed) fun _ =>
      h.bind (h.callInvoker ctx i target) fun _ => h.pure _
  unfold BlockContext.invokerCall
  split
  · exact h.bind (h.callInvoker ctx _ target) fun _ => h.pure _
  · exact h.bind (h.callInvoker ctx _ target) fun _ => h.pure _
  · exact h.bind (h.callInvoker ctx _ target) fun _ => h.pure _
  · exact hvalues true _
  · exact hvalues false _

theorem hookCall (target : Property) (hook : ChangeHook) : Steps.Within R (ctx.hookCall target hook) := by
  unfold BlockContext.hookCall
  split
  · exact h.pure _
  · exact h.bind (h.readBoth ctx .entry target true) fun _ => h.pure _

theorem subscriptionBlock (field : Field) (handler accessor : MethodId) :
    Steps.Within R (ctx.subscriptionBlock field handler accessor) :=
  h.bind (h.lift _) fun _ => h.bind (h.lift _) fun _ => h.bind h.get fun _ =>
    h.bind (h.labelled _) fun _ => h.bind (h.labelled _) fun _ => h.pure _

theorem announcement (hcount : Steps.Within R countCall) (target : Property) (hook : List Op) :
    Steps.Within R (if ctx.property.announces target.name then Pure.pure hook
      else ctx.invokerCall .entry target >>= fun call =>
        countCall >>= fun _ => Pure.pure (hook ++ call)) := by
  split
  · exact h.pure _
  · exact h.bind (h.invokerCall ctx .entry target) fun _ => h.bind hcount fun _ => h.pure _

theorem targetBlock (hcount : Steps.Within R countCall) (called : List String) (target : Property) :
    Steps.Within R (ctx.targetBlock called target) := by
  unfold BlockContext.targetBlock
  dsimp only
  split
  · exact h.bind (h.hookCall ctx target _) (h.announcement ctx hcount target)
  · exact h.announcement ctx hcount target []

theorem targetBlocks (hcount : Steps.Within R countCall) (called : List String) (targets : List Property) :
    Steps.Within R (ctx.targetBlocks called targets) := by
  induction targets with
  | nil => exact h.pure _
  | cons target rest ih =>
    exact h.bind (h.targetBlock ctx hcount called target) fun _ => h.bind ih fun _ => h.pure _

theorem handlerOps (targets : List Property) : Steps.Within R (ctx.handlerOps targets) := by
  induction targets with
  | nil => exact h.pure _
  | cons target rest ih =>
    exact h.bind (h.invokerCall ctx .current target) fun _ => h.bind ih fun _ => h.pure _

end Draft.Makes

namespace Draft.Keeps

variable {R : Draft → Draft → Prop} (h : Draft.Keeps R) (ctx : BlockContext)
include h

theorem weaveSubscription (field : Field) (event : Event) (handler : MethodId)
    (anchor : Nat) : Steps.Within R (ctx.weaveSubscription field event handler anchor) := by
  unfold BlockContext.weaveSubscription
  split
  · split
    · exact h.bind (h.subscriptionBlock ctx field handler _) fun _ =>
        h.bind (h.insert anchor _) fun _ => h.bind h.get fun _ =>
          h.bind (h.subscriptionBlock ctx field handler _) fun _ => h.insert _ _
    · exact h.throw _
  · exact h.throw _

theorem writeHandler : Steps.Within R ctx.writeHandler :=
  h.bind (h.handlerOps ctx ctx.property.targets) fun _ => h.bind (h.labelled _) fun _ => h.append _

theorem subscribed (anchors : List Nat) (subscription : Option (Field × Event × MethodId)) :
    Steps.Within R (match subscription, anchors with
      | some (field, event, handler), first :: _ => ctx.weaveSubscription field event handler first
      | _, _ => Pure.pure ()) := by
  split
  · exact h.weaveSubscription ctx _ _ _ _
  · exact h.pure _

end Draft.Keeps

/-! ## What edits add -/

namespace Draft

/-- The draft has all that the other one has, in the same order. -/
structure Fuller (d d' : Draft) : Prop where
  code : d.body.code.Sublist d'.body.code
  slots : d.body.slots <+: d'.body.slots
  serial : d.serial ≤ d'.serial

/-- Every run of the steps only adds to the draft. -/
abbrev Adds {α : Type} (steps : Drafting α) : Prop := Steps.Within Fuller steps

theorem Fuller.refl (d : Draft) : Fuller d d :=
  ⟨List.Sublist.refl _, List.prefix_refl _, Nat.le_refl _⟩

theorem Fuller.trans {d d' d'' : Draft} (h : Fuller d d') (h' : Fuller d' d'') : Fuller d d'' :=
  ⟨h.code.trans h'.code, h.slots.trans h'.slots, Nat.le_trans h.serial h'.serial⟩

theorem adds_insert (position : Nat) (code : List Instruction) : Adds (insert position code) := by
  intro d
  by_cases hle : position ≤ d.body.code.length
  · have hinserted := insert_run code hle
    have hrun : ((insert position code).run.run d).2
        = { d with body := { d.body with code := ((insert position code).run.run d).2.body.code } } := by
      show (insert position code d).2
        = { d with body := { d.body with code := (insert position code d).2.body.code } }
      simp only [insert, Stream.insertAt_eq_ok code hle]
    rw [hrun]
    refine ⟨?_, List.prefix_refl d.body.slots, Nat.le_refl d.serial⟩
    show d.body.code.Sublist ((insert position code).run.run d).2.body.code
    rw [hinserted, List.append_assoc]
    have hsplit : (d.body.code.take position ++ d.body.code.drop position).Sublist
        (d.body.code.take position ++ (code ++ d.body.code.drop position)) :=
      (List.Sublist.refl _).append (List.sublist_append_right _ _)
    rwa [List.take_append_drop] at hsplit
  · have hrun : ((insert position code).run.run d).2 = d := by
      show (insert position code d).2 = d
      simp only [insert, Stream.insertAt_eq_error code (Nat.lt_of_not_le hle)]
    rw [hrun]
    exact .refl d

theorem keeps_fuller : Keeps Fuller where
  refl := .refl
  trans := .trans
  addSlot _ d := ⟨List.Sublist.refl d.body.code, List.prefix_append d.body.slots _, Nat.le_refl d.serial⟩
  addCapture _ _ d := ⟨List.Sublist.refl d.body.code, List.prefix_refl d.body.slots, Nat.le_refl d.serial⟩
  labelled _ d :=
    ⟨List.Sublist.refl d.body.code, List.prefix_refl d.body.slots, Nat.le_add_right d.serial _⟩
  insert := adds_insert
  append _ d := ⟨List.sublist_append_left d.body.code _, List.prefix_refl d.body.slots, Nat.le_refl d.serial⟩
  prepend _ d := ⟨List.sublist_append_right _ d.body.code, List.prefix_refl d.body.slots, Nat.le_refl d.serial⟩

theorem adds_countCall : Adds countCall := fun d =>
  ⟨List.Sublist.refl d.body.code, List.prefix_refl d.body.slots, Nat.le_refl d.serial⟩

end Draft

namespace BlockContext

open Draft

variable (ctx : BlockContext)

theorem adds_announcement (target : Property) (hook : List Op) :
    Adds (if ctx.property.announces target.name then pure hook
      else ctx.invokerCall .entry target >>= fun call =>
        countCall >>= fun _ => pure (hook ++ call)) :=
  keeps_fuller.announcement ctx adds_countCall target hook

theorem adds_targetBlocks (called : List String) (targets : List Property) :
    Adds (ctx.targetBlocks called targets) := keeps_fuller.targetBlocks ctx adds_countCall called targets

theorem adds_weaveAnchor (called : List String) (anchor : Nat) :
    Adds (ctx.weaveAnchor called anchor) :=
  keeps_fuller.bind (keeps_fuller.bind (ctx.adds_targetBlocks called ctx.property.targets) fun _ =>
    keeps_fuller.pure _) fun _ => keeps_fuller.bind (keeps_fuller.labelled _) fun _ => adds_insert anchor _

theorem adds_writeHandler : Adds ctx.writeHandler := keeps_fuller.writeHandler ctx

end BlockContext

theorem BlockContext.adds_weaveAnchors (ctx : BlockContext) (called : List String) (anchors : List Nat) :
    Draft.Adds (anchors.forM (ctx.weaveAnchor called)) := by
  induction anchors with
  | nil => exact Draft.keeps_fuller.pure _
  | cons anchor rest ih =>
    rw [List.forM_eq_forM, List.forM_cons]
    exact Draft.keeps_fuller.bind (ctx.adds_weaveAnchor called anchor) fun _ => ih

theorem Weaving.adds_edits (ctx : BlockContext) (called : List String) (anchors : List Nat)
    (subscription : Option (Field × Event × MethodId)) :
    Draft.Adds (Weaving.edits ctx called anchors subscription) := by
  rw [edits_eq]
  exact Draft.keeps_fuller.bind (ctx.adds_weaveAnchors called anchors.reverse) fun _ =>
    Draft.keeps_fuller.bind (Draft.keeps_fuller.subscribed ctx anchors subscription) fun _ =>
      Draft.keeps_fuller.prependPrologue

namespace Module

/-- A module with more in it: to a type some methods were added, and nothing else but the body of one
method is another one. -/
structure Gains (m m' : Module) (i : MethodId) (t : TypeId) (added : List MethodId) : Prop where
  methods : ∀ j d, m.method? j = some d → j ≠ i → m'.method? j = some d
  type : m'.type? t = (m.type? t).map fun d => { d with methods := d.methods ++ added }
  types : ∀ u, u ≠ t → m'.type? u = m.type? u

theorem gains_declareOn (s : MethodSpec) (t : TypeId) (m : Module) (i : MethodId) :
    m.Gains (s.declareOn t m).2 i t [(s.declareOn t m).1] := by
  have hadded : ∀ u, (s.declareOn t m).2.type? u = if t = u
      then (m.type? u).map fun d => { d with methods := d.methods ++ [(s.declareOn t m).1] }
      else m.type? u := by
    intro u
    unfold MethodSpec.declareOn attachMethod
    rw [type?_updateType]
    rfl
  refine ⟨fun j d hd _ => method?_declareOn s t m hd, ?_, fun u hu => ?_⟩
  · rw [hadded, if_pos rfl]
  · rw [hadded, if_neg (Ne.symm hu)]

theorem Gains.none (m : Module) (i : MethodId) (t : TypeId) : m.Gains m i t [] := by
  refine ⟨fun _ _ hd _ => hd, ?_, fun _ _ => rfl⟩
  cases m.type? t <;> simp

theorem Gains.setBody {m m' : Module} {i : MethodId} {t : TypeId} {added : List MethodId}
    (h : m.Gains m' i t added) (body : Option Body) (serial : Nat) :
    m.Gains { m'.setBody i body with serial } i t added := by
  refine ⟨fun j d hd hj => ?_, h.type, h.types⟩
  exact (method?_setBody_of_ne m' (Ne.symm hj) body).trans (h.methods j d hd hj)

end Module

namespace Weaving

variable {options : Options} {resolver : Resolver} {type : TypePlan} {plan : PropertyPlan}

/-- The labels that were drawn for the handler are not drawn again. -/
theorem serial_le_declareHandler {ctx : BlockContext} {i : MethodId} {m : Module}
    (h : ctx.declareHandler = .ok (i, m)) : ctx.module.serial ≤ m.serial := by
  obtain ⟨object, arguments, draft, -, -, hwrite, hdeclared⟩ := declareHandler_ok h
  have hserial := (ctx.adds_writeHandler { body := {}, serial := ctx.module.serial }).serial
  rw [hwrite] at hserial
  obtain ⟨-, rfl⟩ := Prod.mk.inj hdeclared
  exact hserial

/-- What weaving a setter leaves of the module, whether or not it succeeds: the same module, or one in
which the setter's body has all instructions and slots that it had, in their order, and the type has at
most one more method. -/
def Touched (type : TypePlan) (plan : PropertyPlan) (m m' : Module) : Prop :=
  m' = m ∨ ∃ i d body result added, plan.property.setter = some i ∧ m.method? i = some d
    ∧ d.body = some body ∧ m'.method? i = some { d with body := some result }
    ∧ body.code.Sublist result.code ∧ body.slots <+: result.slots ∧ added.length ≤ 1
    ∧ m.Gains m' i type.type added

theorem gains_declareHandler {ctx : BlockContext} {i : MethodId} {m : Module}
    (h : ctx.declareHandler = .ok (i, m)) (setter : MethodId) :
    ctx.module.Gains m setter ctx.type.type [i] := by
  obtain ⟨object, arguments, draft, -, -, -, hdeclared⟩ := declareHandler_ok h
  have hgains := Module.gains_declareOn
    { name := delegateName ctx.property.property.name
      params := [⟨"s", object⟩, ⟨"e", arguments⟩]
      body := some draft.body }
    ctx.type.type { ctx.module with serial := draft.serial } setter
  obtain ⟨rfl, rfl⟩ := Prod.mk.inj hdeclared
  exact ⟨hgains.methods, hgains.type, hgains.types⟩

/-- Weaving a setter leaves the module as it was, or the setter with a fuller body, behind the declaration of
the handler if one is declared. -/
theorem setter_leaves {w w' : Workpiece} {result : Except Error WovenSetter}
    (hrun : (setter options resolver type plan).run.run w = (result, w')) :
    w'.module = w.module ∨ ∃ i d body n draft, plan.property.setter = some i
      ∧ w.module.method? i = some d ∧ d.body = some body
      ∧ (n = w.module
        ∨ ∃ j, (⟨options, resolver, w.module, type, plan⟩ : BlockContext).declareHandler = .ok (j, n))
      ∧ Draft.Fuller { body, serial := n.serial } draft
      ∧ w'.module = { n.setBody i (some draft.body) with serial := draft.serial } := by
  rcases setter_cases hrun with ⟨-, hsame⟩ |
    ⟨i, d, body, n, capabilities, subscription, hset, hd, hbody, hsubscription, hfinish⟩
  · exact .inl hsame
  have hn : n = w.module
      ∨ ∃ j, (⟨options, resolver, w.module, type, plan⟩ : BlockContext).declareHandler = .ok (j, n) := by
    cases hfollowed : followed? options type plan w body.code with
    | none =>
      rw [hfollowed] at hsubscription
      exact .inl hsubscription.2
    | some f =>
      rw [hfollowed] at hsubscription
      obtain ⟨j, -, hdeclare⟩ := hsubscription
      exact .inr ⟨j, hdeclare⟩
  obtain ⟨-, rfl⟩ := Prod.mk.inj hfinish
  exact .inr ⟨i, d, body, n, _, hset, hd, hbody, hn, adds_edits _ _ _ _ _, rfl⟩

theorem touched_setter {w w' : Workpiece} {result : Except Error WovenSetter}
    (hrun : (setter options resolver type plan).run.run w = (result, w')) :
    Touched type plan w.module w'.module := by
  rcases setter_leaves hrun with hsame | ⟨i, d, body, n, draft, hset, hd, hbody, hn, hfuller, hmodule⟩
  · exact .inl hsame
  obtain ⟨added, hadded, hkept, hgains⟩ : ∃ added : List MethodId, added.length ≤ 1
      ∧ n.method? i = some d ∧ w.module.Gains n i type.type added := by
    rcases hn with rfl | ⟨j, hdeclare⟩
    · exact ⟨[], Nat.zero_le 1, hd, .none w.module i type.type⟩
    · exact ⟨[j], Nat.le_refl 1, method?_declareHandler hdeclare hd, gains_declareHandler hdeclare i⟩
  rw [hmodule]
  refine .inr ⟨i, d, body, draft.body, added, hset, hd, hbody, ?_, hfuller.code, hfuller.slots, hadded,
    hgains.setBody _ _⟩
  exact Module.method?_setBody hkept _

private theorem validate_state (setter : Option MethodId) (w : Workpiece) :
    ((validate setter).run.run w).2 = w := by
  have hget : (get : Weaving Workpiece).run.run w = (.ok w, w) := rfl
  unfold validate
  rw [Steps.bind_run, hget]
  dsimp only
  cases (setter.bind w.module.method?).bind (·.body) with
  | none => rfl
  | some body =>
    dsimp only
    cases checkBranches body.code <;> rfl

theorem checkedSetter_state (w : Workpiece) :
    ((checkedSetter options resolver type plan).run.run w).2
      = ((setter options resolver type plan).run.run w).2 := by
  unfold checkedSetter
  rw [Steps.bind_run]
  cases hsetter : (setter options resolver type plan).run.run w with
  | mk result w₁ =>
    cases result with
    | error e => rfl
    | ok woven =>
      dsimp only
      by_cases hvalidation : options.validation
      · rw [if_pos hvalidation, Steps.bind_run]
        have hstate := validate_state plan.property.setter w₁
        cases hvalidate : (validate plan.property.setter).run.run w₁ with
        | mk result w₂ =>
          rw [hvalidate] at hstate
          cases result <;> exact hstate
      · rw [if_neg hvalidation]
        rfl

theorem isMarked_touched {m m' : Module} (h : Touched type plan m m') :
    isMarked m' plan.property = isMarked m plan.property := by
  rcases h with rfl | ⟨i, d, body, result, added, hset, hd, -, hd', -⟩
  · rfl
  · unfold isMarked
    rw [hset, Option.bind_some, Option.bind_some, hd, hd']
    rfl

end Weaving

end SetterLoom
