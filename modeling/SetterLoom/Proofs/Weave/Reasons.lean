import SetterLoom.Proofs.Weave.Announced
import SetterLoom.Proofs.Weave.Beside

/-!
# Why weaving a setter fails

Weaving a setter goes through many steps that may fail, with the state left as it is by then. Each step fails
for reasons that can be told beforehand, from the plan, the module and the resolver alone: it fails if there
is one, and with one of them. A step behind another one is only reached if there was no reason for the first
to fail, so a value that was read once can be read again, and a constructor that was found once is found again.

* `Steps.FailsFor`, `Steps.FailsFor.bind`: steps that fail for given reasons.
* `BlockContext.ReadReason`, `CallReason`, `TargetReason`, `HandlerReason`, `SubscriptionReason`: the reasons.
* `failsFor_edits`, `declareHandler_reason`: the edits of a setter and the declaration of a handler.
* `Reason.refuses`: errors that no plan is a reason for.
* `getElem?_subscribing`, `storeInFront_subscribing`: what is in front of the first anchor stays there.
* `Resolver.tells_refusing`: how the usual resolver fails.
* `setter_fails_iff`: weaving a setter.
-/

namespace SetterLoom
set_option autoImplicit false

/-! ## Steps that fail for given reasons -/

namespace Steps

variable {α β σ : Type} {I : σ → Prop} {F G : Error → Prop}

/-- From states of a kind the steps fail if there is a reason to, and with one of the reasons. They stay
within these states. -/
def FailsFor (I : σ → Prop) (F : Error → Prop) (x : ExceptT Error (StateM σ) α) : Prop :=
  ∀ s, I s → I (x.run.run s).2 ∧ match (x.run.run s).1 with
    | .ok _ => ∀ e, ¬ F e
    | .error e => F e

/-- There is no reason to fail. -/
abbrev Safe (I : σ → Prop) (x : ExceptT Error (StateM σ) α) : Prop := FailsFor I (fun _ => False) x

theorem FailsFor.congr {x : ExceptT Error (StateM σ) α} (h : FailsFor I F x) (hiff : ∀ e, F e ↔ G e) :
    FailsFor I G x := by
  obtain rfl : F = G := funext fun e => propext (hiff e)
  exact h

/-- The second part is reached if there is no reason for the first to fail. -/
theorem FailsFor.bind {x : ExceptT Error (StateM σ) α} {f : α → ExceptT Error (StateM σ) β}
    (h : FailsFor I F x) (hmore : (∀ e, ¬ F e) → ∀ a, FailsFor I G (f a)) :
    FailsFor I (fun e => F e ∨ G e) (x >>= f) := by
  intro s hs
  obtain ⟨hstays, hfirst⟩ := h s hs
  rw [bind_run]
  cases hrun : x.run.run s with
  | mk result s₁ =>
    rw [hrun] at hstays hfirst
    cases result with
    | error e => exact ⟨hstays, .inl hfirst⟩
    | ok a =>
      obtain ⟨hstays', hrest⟩ := hmore hfirst a s₁ hstays
      refine ⟨hstays', ?_⟩
      dsimp only
      cases hresult : ((f a).run.run s₁).1 with
      | error e =>
        rw [hresult] at hrest
        exact .inr hrest
      | ok b =>
        rw [hresult] at hrest
        rintro e (he | he)
        · exact hfirst e he
        · exact hrest e he

theorem FailsFor.before {x : ExceptT Error (StateM σ) α} {f : α → ExceptT Error (StateM σ) β}
    (h : FailsFor I F x) (hmore : (∀ e, ¬ F e) → ∀ a, Safe I (f a)) : FailsFor I F (x >>= f) :=
  (h.bind hmore).congr fun _ => by rw [or_false]

theorem FailsFor.behind {x : ExceptT Error (StateM σ) α} {f : α → ExceptT Error (StateM σ) β}
    (h : Safe I x) (hmore : ∀ a, FailsFor I G (f a)) : FailsFor I G (x >>= f) :=
  (h.bind fun _ => hmore).congr fun _ => by rw [false_or]

theorem safe_pure (a : α) : Safe I (pure a : ExceptT Error (StateM σ) α) := fun _ hs => ⟨hs, fun _ => id⟩

theorem safe_get : Safe I (get : ExceptT Error (StateM σ) σ) := fun _ hs => ⟨hs, fun _ => id⟩

theorem failsFor_throw {e : Error} (he : F e) : FailsFor I F (throw e : ExceptT Error (StateM σ) α) :=
  fun _ hs => ⟨hs, he⟩

theorem failsFor_lift (x : Except Error α) :
    FailsFor I (fun e => x = .error e) (liftM x : ExceptT Error (StateM σ) α) := by
  cases x with
  | ok a => exact fun _ hs => ⟨hs, fun _ => nofun⟩
  | error e => exact fun _ hs => ⟨hs, rfl⟩

end Steps

namespace Draft

open Steps

/-- The code has at least so many instructions. -/
def Long (n : Nat) (d : Draft) : Prop := n ≤ d.body.code.length

variable {n : Nat}

theorem safe_addSlot (type : TypeId) : Safe (Long n) (addSlot type) := fun _ hd => ⟨hd, fun _ => id⟩

theorem safe_addCapture (c : Capture) (ops : List Op) : Safe (Long n) (addCapture c ops) :=
  fun _ hd => ⟨hd, fun _ => id⟩

theorem safe_countCall : Safe (Long n) countCall := fun _ hd => ⟨hd, fun _ => id⟩

theorem safe_labelled (ops : List Op) : Safe (Long n) (labelled ops) := fun _ hd => ⟨hd, fun _ => id⟩

theorem safe_insert {position : Nat} (h : position ≤ n) (code : List Instruction) :
    Safe (Long n) (insert position code) := by
  intro d hd
  have hle : position ≤ d.body.code.length := Nat.le_trans h hd
  have hrun : (insert position code).run.run d = (.ok (), { d with body := { d.body with
      code := d.body.code.take position ++ code ++ d.body.code.drop position } }) := by
    show insert position code d = _
    simp only [insert, Stream.insertAt_eq_ok code hle]
  rw [hrun]
  refine ⟨Nat.le_trans hd ?_, fun _ => id⟩
  have hsplit := congrArg List.length (List.take_append_drop position d.body.code)
  simp only [List.length_append] at hsplit ⊢
  omega

theorem safe_append (code : List Instruction) : Safe (Long n) (append code) :=
  fun d hd => ⟨Nat.le_trans hd (List.length_append ▸ Nat.le_add_right d.body.code.length code.length), fun _ => id⟩

theorem safe_prependPrologue : Safe (Long n) prependPrologue :=
  .behind safe_get fun d => .behind (safe_labelled d.prologue) fun code => fun d hd =>
    ⟨Nat.le_trans hd (List.length_append ▸ Nat.le_add_left d.body.code.length code.length), fun _ => id⟩

end Draft

/-! ## Reasons -/

namespace BlockContext

open Steps Draft

/-- Why the value of a target cannot be read, as an object if `boxed`. The resolver is asked about a module that
may be a later one. -/
inductive ReadReason (ctx : BlockContext) (asked : Module) (target : Property) (boxed : Bool) : Error → Prop
  | getter (h : target.getter = none) : ReadReason ctx asked target boxed (.missingAccessor target.name .get)
  | type (h : ctx.module.type? target.type = none) : ReadReason ctx asked target boxed (.releasedType target.name)
  | object {e : Error} (hboxed : boxed = true) (h : ctx.resolver.objectType asked = .error e) :
    ReadReason ctx asked target boxed e

/-- Why the invoker cannot be called for a target: the values that it takes cannot be read, or it has a type
parameter for a type that is gone. -/
inductive CallReason (ctx : BlockContext) (asked : Module) (target : Property) : Error → Prop
  | value {boxed : Bool} {e : Error} (hform : ctx.type.invoker.valueForm? = some boxed)
    (h : ctx.ReadReason asked target boxed e) : CallReason ctx asked target e
  | parameter (hgeneric : (ctx.module.method? ctx.type.invoker.method).any (·.isGeneric) = true)
    (h : ctx.module.type? target.type = none) : CallReason ctx asked target (.releasedType target.name)

/-- Why there is no code for a target. -/
inductive TargetReason (ctx : BlockContext) (asked : Module) (called : List String) (target : Property) :
    Error → Prop
  | hook {i : MethodId} {e : Error} (hhook : ctx.hookFor? called target = some (.beforeAfter i))
    (h : ctx.ReadReason asked target true e) : TargetReason ctx asked called target e
  | call {e : Error} (hcall : ctx.property.announces target.name = false) (h : ctx.CallReason asked target e) :
    TargetReason ctx asked called target e

/-- Why the handler cannot be declared. It announces all targets. -/
inductive HandlerReason (ctx : BlockContext) : Error → Prop
  | object {e : Error} (h : ctx.resolver.objectType ctx.module = .error e) : HandlerReason ctx e
  | arguments {e : Error} (h : ctx.resolver.eventArgsType ctx.module = .error e) : HandlerReason ctx e
  | target {t : Property} {e : Error} (ht : t ∈ ctx.property.targets) (h : ctx.CallReason ctx.module t e) :
    HandlerReason ctx e

/-- Why the handler cannot be subscribed. -/
inductive SubscriptionReason (resolver : Resolver) (asked : Module) : Error → Prop
  | equals {e : Error} (h : resolver.objectEquals asked = .error e) : SubscriptionReason resolver asked e
  | handlerConstructor {e : Error} (h : resolver.handlerConstructor asked = .error e) :
    SubscriptionReason resolver asked e

variable {ctx : BlockContext} {asked : Module} {called : List String} {target : Property} {boxed : Bool}
  {n : Nat} {e : Error}

theorem readReason_iff : ctx.ReadReason asked target boxed e
    ↔ (target.getter = none ∧ e = .missingAccessor target.name .get)
      ∨ (ctx.module.type? target.type = none ∧ e = .releasedType target.name)
      ∨ (boxed = true ∧ ctx.resolver.objectType asked = .error e) := by
  constructor
  · rintro (h | h | ⟨hboxed, h⟩)
    · exact .inl ⟨h, rfl⟩
    · exact .inr (.inl ⟨h, rfl⟩)
    · exact .inr (.inr ⟨hboxed, h⟩)
  · rintro (⟨h, rfl⟩ | ⟨h, rfl⟩ | ⟨hboxed, h⟩)
    · exact .getter h
    · exact .type h
    · exact .object hboxed h

theorem callReason_iff : ctx.CallReason asked target e
    ↔ (∃ boxed, ctx.type.invoker.valueForm? = some boxed ∧ ctx.ReadReason asked target boxed e)
      ∨ ((ctx.module.method? ctx.type.invoker.method).any (·.isGeneric) = true
        ∧ ctx.module.type? target.type = none ∧ e = .releasedType target.name) := by
  constructor
  · rintro (⟨hform, h⟩ | ⟨hgeneric, h⟩)
    · exact .inl ⟨_, hform, h⟩
    · exact .inr ⟨hgeneric, h, rfl⟩
  · rintro (⟨boxed, hform, h⟩ | ⟨hgeneric, h, rfl⟩)
    · exact .value hform h
    · exact .parameter hgeneric h

theorem targetReason_iff : ctx.TargetReason asked called target e
    ↔ (∃ i, ctx.hookFor? called target = some (.beforeAfter i) ∧ ctx.ReadReason asked target true e)
      ∨ ctx.property.announces target.name = false ∧ ctx.CallReason asked target e := by
  constructor
  · rintro (⟨hhook, h⟩ | ⟨hcall, h⟩)
    · exact .inl ⟨_, hhook, h⟩
    · exact .inr ⟨hcall, h⟩
  · rintro (⟨i, hhook, h⟩ | ⟨hcall, h⟩)
    · exact .hook hhook h
    · exact .call hcall h

/-- The module itself only counts by the types that are gone and by the names and the type parameters of
methods. -/
theorem targetReason_congr {m : Module} (htypes : ∀ t, m.type? t = none ↔ ctx.module.type? t = none)
    (hgeneric : ∀ i, (m.method? i).any (·.isGeneric) = (ctx.module.method? i).any (·.isGeneric))
    (hhook : ∀ target, { ctx with module := m }.hookFor? called target = ctx.hookFor? called target) :
    { ctx with module := m }.TargetReason asked called target e ↔ ctx.TargetReason asked called target e := by
  simp only [targetReason_iff, callReason_iff, readReason_iff, htypes, hgeneric, hhook]

/-! ## Reading and calling -/

theorem failsFor_targetType (ctx : BlockContext) (target : Property) :
    FailsFor (Long n) (fun e => ctx.module.type? target.type = none ∧ e = .releasedType target.name)
      (ctx.targetType target) := by
  unfold targetType
  split
  · rename_i d hd
    exact (safe_pure d).congr fun e => by simp [hd]
  · rename_i hnone
    exact failsFor_throw ⟨hnone, rfl⟩

theorem failsFor_readValue (ctx : BlockContext) (target : Property) (boxed : Bool) :
    FailsFor (Long n) (ctx.ReadReason ctx.module target boxed) (ctx.readValue target boxed) := by
  unfold readValue
  split
  · rename_i getter hgetter
    refine ((failsFor_targetType ctx target).bind
      (G := fun e => boxed = true ∧ ctx.resolver.objectType ctx.module = .error e) fun _ d => ?_).congr fun e => ?_
    · dsimp only
      split
      · rename_i hboxed
        exact ((failsFor_lift _).before fun _ type => .behind (safe_addSlot type) fun _ => safe_pure _).congr
          fun e => by simp [hboxed]
      · rename_i hboxed
        exact (FailsFor.behind (safe_pure _) fun type => .behind (safe_addSlot type) fun _ => safe_pure _).congr
          fun e => by simp [hboxed]
    · simp [readReason_iff, hgetter]
  · rename_i hnone
    exact failsFor_throw (.getter (Option.eq_none_iff_forall_ne_some.mpr hnone))

theorem safe_beforeSlot (hnone : ∀ e, ¬ ctx.ReadReason ctx.module target boxed e) (source : BeforeSource)
    (after : UInt16) : Safe (Long n) (ctx.beforeSlot source target boxed after) := by
  unfold beforeSlot
  split
  · exact safe_pure _
  · refine .behind safe_get fun d => ?_
    split
    · exact safe_pure _
    · have hread : Safe (Long n) (ctx.readValue target boxed) :=
        (failsFor_readValue ctx target boxed).congr fun e => iff_of_false (hnone e) id
      exact hread.before fun _ y => .behind (safe_addCapture _ _) fun _ => safe_pure _

theorem failsFor_readBoth (ctx : BlockContext) (source : BeforeSource) (target : Property) (boxed : Bool) :
    FailsFor (Long n) (ctx.ReadReason ctx.module target boxed) (ctx.readBoth source target boxed) :=
  (failsFor_readValue ctx target boxed).before fun hnone _ =>
    .behind (safe_beforeSlot hnone source _) fun _ => safe_pure _

theorem failsFor_callInvoker (ctx : BlockContext) (i : MethodId) (target : Property) :
    FailsFor (Long n) (fun e => (ctx.module.method? i).any (·.isGeneric) = true
      ∧ ctx.module.type? target.type = none ∧ e = .releasedType target.name) (ctx.callInvoker i target) := by
  unfold callInvoker
  split
  · rename_i hgeneric
    exact ((failsFor_targetType ctx target).before fun _ _ => safe_pure _).congr fun e => by simp [hgeneric]
  · rename_i hplain
    exact (safe_pure _).congr fun e => by simp [hplain]

theorem failsFor_invokerCall (ctx : BlockContext) (source : BeforeSource) (target : Property) :
    FailsFor (Long n) (ctx.CallReason ctx.module target) (ctx.invokerCall source target) := by
  have hplain : ∀ {i : MethodId} (ops : Op → List Op), ctx.type.invoker.method = i →
      ctx.type.invoker.valueForm? = none → FailsFor (Long n) (ctx.CallReason ctx.module target)
        (ctx.callInvoker i target >>= fun op => pure (ops op)) := by
    intro i ops hmethod hform
    exact ((failsFor_callInvoker ctx i target).before fun _ op => safe_pure _).congr fun e => by
      simp [callReason_iff, hmethod, hform]
  have hvalues : ∀ {i : MethodId} {boxed : Bool}, ctx.type.invoker.method = i →
      ctx.type.invoker.valueForm? = some boxed → FailsFor (Long n) (ctx.CallReason ctx.module target)
        (ctx.callWithValues source target boxed i) := by
    intro i boxed hmethod hform
    exact ((failsFor_readBoth ctx source target boxed).bind fun _ _ =>
      (failsFor_callInvoker ctx i target).before fun _ _ => safe_pure _).congr fun e => by
        simp [callReason_iff, hmethod, hform]
  unfold invokerCall
  split
  · rename_i i hinvoker
    exact hplain _ (by rw [hinvoker]; rfl) (by rw [hinvoker]; rfl)
  · rename_i i c hinvoker
    exact hplain _ (by rw [hinvoker]; rfl) (by rw [hinvoker]; rfl)
  · rename_i i c hinvoker
    exact hplain _ (by rw [hinvoker]; rfl) (by rw [hinvoker]; rfl)
  · rename_i i hinvoker
    exact hvalues (by rw [hinvoker]; rfl) (by rw [hinvoker]; rfl)
  · rename_i i hinvoker
    exact hvalues (by rw [hinvoker]; rfl) (by rw [hinvoker]; rfl)

theorem failsFor_hookCall (ctx : BlockContext) (target : Property) (hook : ChangeHook) :
    FailsFor (Long n) (fun e => ∃ i, hook = .beforeAfter i ∧ ctx.ReadReason ctx.module target true e)
      (ctx.hookCall target hook) := by
  cases hook with
  | noArguments i => exact (safe_pure _).congr fun e => by simp
  | beforeAfter i =>
    exact ((failsFor_readBoth ctx .entry target true).before fun _ _ => safe_pure _).congr fun e => by simp

/-! ## The code of a setter -/

theorem failsFor_announcement (ctx : BlockContext) (target : Property) (hook : List Op) :
    FailsFor (Long n) (fun e => ctx.property.announces target.name = false ∧ ctx.CallReason ctx.module target e)
      (if ctx.property.announces target.name then pure hook
        else ctx.invokerCall .entry target >>= fun call =>
          countCall >>= fun _ => pure (hook ++ call)) := by
  split
  · rename_i hannounced
    exact (safe_pure hook).congr fun e => by simp [hannounced]
  · rename_i hnot
    exact ((failsFor_invokerCall ctx .entry target).before fun _ call =>
      .behind safe_countCall fun _ => safe_pure (hook ++ call)).congr fun e => by simp [hnot]

theorem failsFor_targetBlock (ctx : BlockContext) (called : List String) (target : Property) :
    FailsFor (Long n) (ctx.TargetReason ctx.module called target) (ctx.targetBlock called target) := by
  unfold targetBlock
  dsimp only
  split
  · rename_i hook hhook
    exact ((failsFor_hookCall ctx target hook).bind fun _ => failsFor_announcement ctx target).congr fun e => by
      simp [targetReason_iff, hhook]
  · rename_i hnone
    exact (failsFor_announcement ctx target []).congr fun e => by simp [targetReason_iff, hnone]

theorem failsFor_targetBlocks (ctx : BlockContext) (called : List String) (targets : List Property) :
    FailsFor (Long n) (fun e => ∃ t ∈ targets, ctx.TargetReason ctx.module called t e)
      (ctx.targetBlocks called targets) := by
  induction targets with
  | nil => exact (safe_pure []).congr fun e => by simp
  | cons target rest ih =>
    exact ((failsFor_targetBlock ctx called target).bind fun _ block =>
      ih.before fun _ more => safe_pure (block ++ more)).congr fun e => by simp

theorem failsFor_weaveAnchor (ctx : BlockContext) (called : List String) {anchor : Nat} (h : anchor ≤ n) :
    FailsFor (Long n) (fun e => ∃ t ∈ ctx.property.targets, ctx.TargetReason ctx.module called t e)
      (ctx.weaveAnchor called anchor) :=
  ((failsFor_targetBlocks ctx called ctx.property.targets).before fun _ _ => safe_pure _).before fun _ ops =>
    .behind (safe_labelled ops) fun code => safe_insert h code

theorem failsFor_weaveAnchors (ctx : BlockContext) (called : List String) {anchors : List Nat}
    (h : ∀ a ∈ anchors, a ≤ n) :
    FailsFor (Long n) (fun e => anchors ≠ [] ∧ ∃ t ∈ ctx.property.targets, ctx.TargetReason ctx.module called t e)
      (anchors.forM (ctx.weaveAnchor called)) := by
  induction anchors with
  | nil => exact (safe_pure ()).congr fun e => by simp
  | cons anchor rest ih =>
    rw [List.forM_eq_forM, List.forM_cons]
    refine ((failsFor_weaveAnchor ctx called (h anchor List.mem_cons_self)).bind fun _ _ =>
      ih fun a ha => h a (List.mem_cons_of_mem _ ha)).congr fun e => ?_
    simp only [ne_eq, reduceCtorEq, not_false_eq_true, true_and]
    exact or_iff_left_of_imp And.right

/-! ## The subscription -/

theorem failsFor_subscriptionBlock (ctx : BlockContext) (field : Field) (handler accessor : MethodId) :
    FailsFor (Long n) (SubscriptionReason ctx.resolver ctx.module)
      (ctx.subscriptionBlock field handler accessor) := by
  refine ((failsFor_lift _).bind fun _ equals => (failsFor_lift _).before fun _ constructor =>
    .behind safe_get fun d => .behind (safe_labelled _) fun nop => .behind (safe_labelled _) fun code =>
      safe_pure (code ++ nop)).congr fun e => ?_
  constructor
  · rintro (h | h)
    · exact .equals h
    · exact .handlerConstructor h
  · rintro (h | h)
    · exact .inl h
    · exact .inr h

theorem failsFor_weaveSubscription (ctx : BlockContext) (field : Field) {event : Event} (handler : MethodId)
    {anchor : Nat} (hadd : event.add.isSome = true) (hremove : event.remove.isSome = true) (h : anchor ≤ n) :
    FailsFor (Long n) (SubscriptionReason ctx.resolver ctx.module)
      (ctx.weaveSubscription field event handler anchor) := by
  obtain ⟨add, hadd⟩ := Option.isSome_iff_exists.mp hadd
  obtain ⟨remove, hremove⟩ := Option.isSome_iff_exists.mp hremove
  have hstore : ∀ code, storePosition code anchor ≤ n := by
    intro code
    unfold storePosition
    split <;> omega
  unfold weaveSubscription
  rw [hadd, hremove]
  refine (failsFor_subscriptionBlock ctx field handler add).before fun hnone subscribe =>
    .behind (safe_insert h subscribe) fun _ => .behind safe_get fun d => ?_
  have hagain : Safe (Long n) (ctx.subscriptionBlock field handler remove) :=
    (failsFor_subscriptionBlock ctx field handler remove).congr fun e => iff_of_false (hnone e) id
  exact hagain.before fun _ unsubscribe => safe_insert (hstore _) unsubscribe

/-! ## The handler -/

theorem failsFor_handlerOps (ctx : BlockContext) (targets : List Property) :
    FailsFor (Long n) (fun e => ∃ t ∈ targets, ctx.CallReason ctx.module t e) (ctx.handlerOps targets) := by
  induction targets with
  | nil => exact (safe_pure _).congr fun e => by simp
  | cons target rest ih =>
    exact ((failsFor_invokerCall ctx .current target).bind fun _ call =>
      ih.before fun _ more => safe_pure (call ++ more)).congr fun e => by simp

theorem failsFor_writeHandler (ctx : BlockContext) :
    FailsFor (Long n) (fun e => ∃ t ∈ ctx.property.targets, ctx.CallReason ctx.module t e) ctx.writeHandler :=
  (failsFor_handlerOps ctx ctx.property.targets).before fun _ ops =>
    .behind (safe_labelled ops) fun code => safe_append code

theorem declareHandler_reason (ctx : BlockContext) :
    match ctx.declareHandler with
    | .ok _ => ∀ e, ¬ ctx.HandlerReason e
    | .error e => ctx.HandlerReason e := by
  have hwrite := (failsFor_writeHandler (n := 0) ctx { body := {}, serial := ctx.module.serial }
    (Nat.zero_le _)).2
  unfold declareHandler
  cases hobject : ctx.resolver.objectType ctx.module with
  | error e => exact .object hobject
  | ok object =>
    cases harguments : ctx.resolver.eventArgsType ctx.module with
    | error e => exact .arguments harguments
    | ok arguments =>
      cases hrun : ctx.writeHandler.run.run { body := {}, serial := ctx.module.serial } with
      | mk result draft =>
        rw [hrun] at hwrite
        cases result with
        | error e =>
          obtain ⟨t, ht, h⟩ := hwrite
          exact .target ht h
        | ok u =>
          show ∀ e, ¬ ctx.HandlerReason e
          rintro e (h | h | ⟨ht, h⟩)
          · rw [hobject] at h
            cases h
          · rw [harguments] at h
            cases h
          · exact hwrite e ⟨_, ht, h⟩

end BlockContext

/-! ## A setter -/

namespace Resolver

/-- The resolver fails with the error for some module. -/
def Refuses (r : Resolver) (e : Error) : Prop :=
  ∃ m, r.objectType m = .error e ∨ r.objectEquals m = .error e ∨ r.handlerConstructor m = .error e
    ∨ r.eventArgsType m = .error e ∨ r.eventArgsConstructor m = .error e

/-- The resolver fails by telling what it did not find. -/
def Tells (r : Resolver) : Prop := ∀ e, r.Refuses e → ∃ name, e = .unresolved name

theorem unresolved_of_require {m : Module} {name : String} {e : Error} (h : m.require name = .error e) :
    ∃ name, e = .unresolved name := by
  unfold Module.require at h
  split at h
  · cases h
  · exact ⟨_, (Except.error.inj h).symm⟩

private theorem error_of_bind {α β : Type} {x : Except Error α} {f : α → Except Error β} {e : Error}
    (h : x >>= f = .error e) : x = .error e ∨ ∃ a, f a = .error e := by
  cases x with
  | error e' => exact .inl (congrArg Except.error (Except.error.inj h))
  | ok a => exact .inr ⟨a, h⟩

theorem unresolved_of_constructorOf {m : Module} {typeName : String} {e : Error}
    (h : constructorOf typeName m = .error e) : ∃ name, e = .unresolved name := by
  unfold constructorOf at h
  rcases error_of_bind h with h | ⟨t, h⟩
  · exact unresolved_of_require h
  · split at h
    · cases h
    · exact ⟨_, (Except.error.inj h).symm⟩

theorem unresolved_of_equalsOf {m : Module} {e : Error} (h : equalsOf m = .error e) :
    ∃ name, e = .unresolved name := by
  unfold equalsOf at h
  rcases error_of_bind h with h | ⟨object, h⟩
  · exact unresolved_of_require h
  · dsimp only at h
    split at h
    · cases h
    · exact ⟨_, (Except.error.inj h).symm⟩

/-- A lookup in the runtime surface, refused or not, fails only with the name that it does not find. -/
theorem tells_refusing (refused : List String) : (refusing refused).Tells := by
  have hrefuse : ∀ {α : Type} {lookup : String} {find : Module → Except Error α} {m : Module} {e : Error},
      (find m = .error e → ∃ name, e = .unresolved name) → refuse refused lookup find m = .error e →
        ∃ name, e = .unresolved name := by
    intro α lookup find m e hfind h
    rcases refuse_cases refused lookup find with hrefused | hfound
    · rw [hrefused] at h
      exact ⟨_, (Except.error.inj h).symm⟩
    · exact hfind (hfound ▸ h)
  rintro e ⟨m, h | h | h | h | h⟩
  · exact hrefuse unresolved_of_require h
  · exact hrefuse unresolved_of_equalsOf h
  · exact hrefuse unresolved_of_constructorOf h
  · exact hrefuse unresolved_of_require h
  · exact hrefuse unresolved_of_constructorOf h

end Resolver

namespace Weaving

open Steps Draft

variable {options : Options} {resolver : Resolver} {type : TypePlan} {plan : PropertyPlan} {w w' : Workpiece}
  {n : Nat} {e : Error}

theorem failsFor_subscribed (ctx : BlockContext) {anchors : List Nat}
    {subscription : Option (Field × Event × MethodId)} (hne : anchors ≠ []) (hle : ∀ a ∈ anchors, a ≤ n)
    (hpublic : ∀ s, subscription = some s → s.2.1.add.isSome = true ∧ s.2.1.remove.isSome = true) :
    FailsFor (Long n)
      (fun e => subscription.isSome = true ∧ BlockContext.SubscriptionReason ctx.resolver ctx.module e)
      (match subscription, anchors with
        | some (field, event, handler), first :: _ => ctx.weaveSubscription field event handler first
        | _, _ => pure ()) := by
  cases subscription with
  | none => exact (safe_pure ()).congr fun e => by simp
  | some s =>
    obtain ⟨field, event, handler⟩ := s
    obtain ⟨first, rest, rfl⟩ := List.exists_cons_of_ne_nil hne
    obtain ⟨hadd, hremove⟩ := hpublic _ rfl
    exact (ctx.failsFor_weaveSubscription field handler hadd hremove (hle first List.mem_cons_self)).congr
      fun e => by simp

theorem failsFor_edits (ctx : BlockContext) (called : List String) {anchors : List Nat}
    {subscription : Option (Field × Event × MethodId)} (hne : anchors ≠ []) (hle : ∀ a ∈ anchors, a ≤ n)
    (hpublic : ∀ s, subscription = some s → s.2.1.add.isSome = true ∧ s.2.1.remove.isSome = true) :
    FailsFor (Long n) (fun e => (∃ t ∈ ctx.property.targets, ctx.TargetReason ctx.module called t e)
      ∨ subscription.isSome = true ∧ BlockContext.SubscriptionReason ctx.resolver ctx.module e)
      (edits ctx called anchors subscription) := by
  have hreversed : ∀ a ∈ anchors.reverse, a ≤ n := fun a ha => hle a (List.mem_reverse.mp ha)
  have hanchors := ctx.failsFor_weaveAnchors called hreversed
  have hsubscribed := failsFor_subscribed ctx hne hle hpublic
  rw [edits_eq]
  refine (hanchors.bind fun _ _ => hsubscribed.before fun _ _ => safe_prependPrologue).congr fun e => ?_
  simp [hne]

/-- Why a setter cannot be woven. If there is an event to follow, the handler is declared first, and the
resolver is asked about the module `n` that has it. All else is read off the module as it was. -/
inductive Reason (options : Options) (resolver : Resolver) (type : TypePlan) (plan : PropertyPlan)
    (w : Workpiece) : Error → Prop
  | setter (h : plan.property.setter = none) :
    Reason options resolver type plan w (.missingAccessor plan.property.name .set)
  | body {i : MethodId} (hset : plan.property.setter = some i)
    (h : (w.module.method? i).bind (·.body) = none) :
    Reason options resolver type plan w (.missingBody (w.module.methodText i))
  | handler {body : Body} {followed : Field × Event} {e : Error}
    (hbody : (plan.property.setter.bind w.module.method?).bind (·.body) = some body)
    (hfollowed : followed? options type plan w body.code = some followed)
    (h : BlockContext.HandlerReason ⟨options, resolver, w.module, type, plan⟩ e) :
    Reason options resolver type plan w e
  | target {body : Body} {n : Module} {subscription : Option (Field × Event × MethodId)} {t : Property}
    {e : Error} (hbody : (plan.property.setter.bind w.module.method?).bind (·.body) = some body)
    (hn : Subscription (⟨options, resolver, ·, type, plan⟩) w.module (followed? options type plan w body.code)
      subscription n)
    (ht : t ∈ plan.targets)
    (h : BlockContext.TargetReason ⟨options, resolver, w.module, type, plan⟩ n
      (calledHooks w.module plan body.code) t e) :
    Reason options resolver type plan w e
  | subscription {body : Body} {n : Module} {subscription : Option (Field × Event × MethodId)}
    {followed : Field × Event} {e : Error}
    (hbody : (plan.property.setter.bind w.module.method?).bind (·.body) = some body)
    (hfollowed : followed? options type plan w body.code = some followed)
    (hn : Subscription (⟨options, resolver, ·, type, plan⟩) w.module (followed? options type plan w body.code)
      subscription n)
    (h : BlockContext.SubscriptionReason resolver n e) :
    Reason options resolver type plan w e

theorem accessors_of_followed? {code : Stream} {field : Field} {event : Event}
    (h : followed? options type plan w code = some (field, event)) :
    event.add.isSome = true ∧ event.remove.isSome = true := by
  obtain ⟨-, hevent⟩ := followed?_eq_some h
  unfold Module.publicEvent? at hevent
  obtain ⟨t, -, hfound⟩ := List.exists_of_findSome?_eq_some hevent
  have hpublic := List.find?_some hfound
  rw [Bool.and_eq_true] at hpublic
  have hboth := hpublic.2
  unfold Module.isPublicEvent at hboth
  cases hadd : event.add with
  | none => simp [hadd] at hboth
  | some add =>
    cases hremove : event.remove with
    | none => simp [hremove] at hboth
    | some remove => exact ⟨rfl, rfl⟩

/-- There is one way to settle what is subscribed. -/
theorem Subscription.unique {ctx : Module → BlockContext} {m n n' : Module} {followed : Option (Field × Event)}
    {subscription subscription' : Option (Field × Event × MethodId)}
    (h : Subscription ctx m followed subscription n) (h' : Subscription ctx m followed subscription' n') :
    subscription' = subscription ∧ n' = n := by
  cases followed with
  | none => exact ⟨h'.1.trans h.1.symm, h'.2.trans h.2.symm⟩
  | some f =>
    obtain ⟨i, rfl, hdeclare⟩ := h
    obtain ⟨i', rfl, hdeclare'⟩ := h'
    obtain ⟨rfl, rfl⟩ := Prod.mk.inj (Except.ok.inj (hdeclare.symm.trans hdeclare'))
    exact ⟨rfl, rfl⟩

/-- The handler is a method that no plan refers to, so there is no code for a target with it if there was none
before. -/
theorem Subscription.targetReason_iff {followed : Option (Field × Event)} {m n asked : Module}
    {subscription : Option (Field × Event × MethodId)} {called : List String} {t : Property}
    (h : Subscription (⟨options, resolver, ·, type, plan⟩) m followed subscription n) :
    BlockContext.TargetReason ⟨options, resolver, n, type, plan⟩ asked called t e
      ↔ BlockContext.TargetReason ⟨options, resolver, m, type, plan⟩ asked called t e := by
  cases followed with
  | none => rw [h.2]
  | some f =>
    obtain ⟨i, -, hdeclare⟩ := h
    have hgrown : m.Grown n := (BlockContext.exists_declareHandler hdeclare).1
    refine @BlockContext.targetReason_congr ⟨options, resolver, m, type, plan⟩ asked called t e n (fun u => ?_)
      (fun j => ?_) fun target => ?_
    · rw [← Option.not_isSome_iff_eq_none, ← Option.not_isSome_iff_eq_none, hgrown.isSome_type?]
    · obtain ⟨object, arguments, draft, -, -, -, hdeclared⟩ := declareHandler_ok hdeclare
      have hn := congrArg Prod.snd hdeclared
      dsimp only at hn
      rw [hn, Module.method?_declareOn_eq]
      split
      · rename_i hnew
        have hnone : m.method? ⟨m.methods.size⟩ = none := Module.method?_of_size_le (Nat.le_refl _)
        rw [hnew, hnone]
        rfl
      · rfl
    · unfold BlockContext.hookFor? TypePlan.hook?
      simp only [hgrown.any_name (plain_hookName target.name)]

/-- The last step fails for the reasons of the edits. -/
theorem finish_reason {i : MethodId} {d : Method} {body : Body} {n : Module} {capabilities : CapabilityCache}
    {subscription : Option (Field × Event × MethodId)}
    (hset : plan.property.setter = some i) (hd : w.module.method? i = some d) (hbody : d.body = some body)
    (hn : Subscription (⟨options, resolver, ·, type, plan⟩) w.module (followed? options type plan w body.code)
      subscription n)
    (hhandler : ∀ e, followed? options type plan w body.code ≠ none →
      ¬ BlockContext.HandlerReason ⟨options, resolver, w.module, type, plan⟩ e) :
    match (finish options resolver type plan i body (calledHooks w.module plan body.code) subscription
      ⟨n, capabilities⟩).1 with
    | .ok _ => ∀ e, ¬ Reason options resolver type plan w e
    | .error e => Reason options resolver type plan w e := by
  have hcode : (plan.property.setter.bind w.module.method?).bind (·.body) = some body := by
    simp [hset, hd, hbody]
  have hpublic : ∀ s, subscription = some s → s.2.1.add.isSome = true ∧ s.2.1.remove.isSome = true := by
    rintro s rfl
    cases hfollowed : followed? options type plan w body.code with
    | none =>
      rw [hfollowed] at hn
      cases hn.1
    | some f =>
      rw [hfollowed] at hn
      obtain ⟨h, hs, -⟩ := hn
      obtain rfl := Option.some.inj hs
      exact accessors_of_followed? hfollowed
  have hedits := (failsFor_edits ⟨options, resolver, n, type, plan⟩ (calledHooks w.module plan body.code)
    (plan.anchors_ne_nil body.code) (fun a => PropertyPlan.le_length_of_mem_anchors) hpublic
    { body, serial := n.serial } (Nat.le_refl body.code.length)).2
  unfold finish
  dsimp only
  cases hrun : (edits ⟨options, resolver, n, type, plan⟩ (calledHooks w.module plan body.code)
      (plan.anchors body.code).1 subscription).run.run { body, serial := n.serial } with
  | mk result draft =>
    rw [hrun] at hedits
    cases result with
    | error e =>
      rcases hedits with ⟨t, ht, h⟩ | ⟨hsome, h⟩
      · exact .target hcode hn ht (hn.targetReason_iff.mp h)
      · obtain ⟨f, hfollowed⟩ := Option.isSome_iff_exists.mp (hn.isSome_iff.mp hsome)
        exact .subscription hcode hfollowed hn h
    | ok u =>
      show ∀ e, ¬ Reason options resolver type plan w e
      intro e hreason
      -- there is only one way to settle the subscription, so each reason is
      -- one that the edits would have failed for
      cases hreason with
      | setter h =>
        rw [hset] at h
        cases h
      | body hset' h =>
        obtain rfl := Option.some.inj (hset.symm.trans hset')
        simp [hd, hbody] at h
      | handler hbody' hfollowed h =>
        obtain rfl := Option.some.inj (hcode.symm.trans hbody')
        exact hhandler e (by simp [hfollowed]) h
      | target hbody' hn' ht h =>
        obtain rfl := Option.some.inj (hcode.symm.trans hbody')
        obtain ⟨rfl, rfl⟩ := hn.unique hn'
        exact hedits e (.inl ⟨_, ht, hn.targetReason_iff.mpr h⟩)
      | subscription hbody' hfollowed hn' h =>
        obtain rfl := Option.some.inj (hcode.symm.trans hbody')
        obtain ⟨rfl, rfl⟩ := hn.unique hn'
        exact hedits e (.inr ⟨hn.isSome_iff.mpr (by simp [hfollowed]), h⟩)

/-- A setter is woven if there is no reason not to. -/
theorem setter_reason (options : Options) (resolver : Resolver) (type : TypePlan) (plan : PropertyPlan)
    (w : Workpiece) :
    match ((setter options resolver type plan).run.run w).1 with
    | .ok _ => ∀ e, ¬ Reason options resolver type plan w e
    | .error e => Reason options resolver type plan w e := by
  have hget : (get : Weaving Workpiece).run.run w = (.ok w, w) := rfl
  cases hset : plan.property.setter with
  | none =>
    unfold setter
    rw [hset]
    exact .setter hset
  | some i =>
    cases hbody : (w.module.method? i).bind (·.body) with
    | none =>
      unfold setter
      rw [hset]
      dsimp only
      rw [bind_run, hget]
      dsimp only
      rw [hbody]
      exact .body hset hbody
    | some body =>
      obtain ⟨d, hd, hbody⟩ := Option.bind_eq_some_iff.mp hbody
      obtain ⟨capabilities, hrun⟩ := subscription?_run options type plan body.code w
      rw [setter_eq resolver hset hd hbody hrun]
      have hcode : (plan.property.setter.bind w.module.method?).bind (·.body) = some body := by
        simp [hset, hd, hbody]
      cases hfollowed : followed? options type plan w body.code with
      | none =>
        exact finish_reason hset hd hbody (by rw [hfollowed]; exact ⟨rfl, rfl⟩) fun e h => absurd hfollowed h
      | some f =>
        have hdeclared := BlockContext.declareHandler_reason ⟨options, resolver, w.module, type, plan⟩
        rw [Option.elim_some]
        cases hdeclare : (⟨options, resolver, w.module, type, plan⟩ : BlockContext).declareHandler with
        | error e =>
          rw [hdeclare] at hdeclared
          exact .handler hcode hfollowed hdeclared
        | ok declared =>
          obtain ⟨h, n⟩ := declared
          rw [hdeclare] at hdeclared
          exact finish_reason hset hd hbody (by rw [hfollowed]; exact ⟨h, rfl, hdeclare⟩) fun e _ => hdeclared e

end Weaving

/-- An error that no plan is a reason for: a position that is not in the code, or an event without an
accessor. -/
inductive Error.Unforeseen : Error → Prop
  | position (position length : Nat) : Unforeseen (.positionOutOfRange position length)
  | add (event : String) : Unforeseen (.missingAccessor event .add)
  | remove (event : String) : Unforeseen (.missingAccessor event .remove)

namespace BlockContext

variable {ctx : BlockContext} {asked : Module} {called : List String} {target : Property} {boxed : Bool}
  {e : Error}

theorem ReadReason.refuses (h : ctx.ReadReason asked target boxed e) (he : e.Unforeseen) :
    ctx.resolver.Refuses e := by
  cases h with
  | getter h => cases he
  | type h => cases he
  | object hboxed h => exact ⟨asked, .inl h⟩

theorem CallReason.refuses (h : ctx.CallReason asked target e) (he : e.Unforeseen) : ctx.resolver.Refuses e := by
  cases h with
  | value hform h => exact h.refuses he
  | parameter hgeneric h => cases he

theorem TargetReason.refuses (h : ctx.TargetReason asked called target e) (he : e.Unforeseen) :
    ctx.resolver.Refuses e := by
  cases h with
  | hook hhook h => exact h.refuses he
  | call hcall h => exact h.refuses he

theorem HandlerReason.refuses (h : ctx.HandlerReason e) (he : e.Unforeseen) : ctx.resolver.Refuses e := by
  cases h with
  | object h => exact ⟨ctx.module, .inl h⟩
  | arguments h => exact ⟨ctx.module, .inr (.inr (.inr (.inl h)))⟩
  | target ht h => exact h.refuses he

theorem SubscriptionReason.refuses {resolver : Resolver} (h : SubscriptionReason resolver asked e) :
    resolver.Refuses e := by
  cases h with
  | equals h => exact ⟨asked, .inr (.inl h)⟩
  | handlerConstructor h => exact ⟨asked, .inr (.inr (.inl h))⟩

end BlockContext

namespace Weaving

open Steps Draft

variable {options : Options} {resolver : Resolver} {type : TypePlan} {plan : PropertyPlan} {w : Workpiece}
  {e : Error}

/-- An error without a reason in the plan is one that the resolver made. -/
theorem Reason.refuses (h : Reason options resolver type plan w e) (he : e.Unforeseen) : resolver.Refuses e := by
  cases h with
  | setter h => cases he
  | body hset h => cases he
  | handler hbody hfollowed h => exact h.refuses he
  | target hbody hn ht h => exact h.refuses he
  | subscription hbody hfollowed hn h => exact h.refuses

theorem Reason.foreseen (h : Reason options resolver type plan w e) (htells : resolver.Tells) :
    ¬ e.Unforeseen := by
  intro he
  obtain ⟨name, rfl⟩ := htells e (h.refuses he)
  cases he

/-! ## Where the first store is -/

/-- The edits up to the subscription at the first anchor. -/
def subscribing (ctx : BlockContext) (called : List String) (anchors : List Nat) (first : Nat) (field : Field)
    (handler add : MethodId) : Drafting Unit := do
  anchors.reverse.forM (ctx.weaveAnchor called)
  Draft.insert first (← ctx.subscriptionBlock field handler add)

theorem edits_subscribing (ctx : BlockContext) (called : List String) {anchors : List Nat} {first : Nat}
    (field : Field) {event : Event} (handler : MethodId) {add remove : MethodId} (hadd : event.add = some add)
    (hremove : event.remove = some remove) (hfirst : anchors.head? = some first) :
    edits ctx called anchors (some (field, event, handler)) = (do
      subscribing ctx called anchors first field handler add
      let store := BlockContext.storePosition (← get).body.code first
      Draft.insert store (← ctx.subscriptionBlock field handler remove)
      prependPrologue) := by
  obtain ⟨rest, rfl⟩ := List.head?_eq_some_iff.mp hfirst
  rw [edits_eq]
  unfold subscribing BlockContext.weaveSubscription
  simp only [hadd, hremove, bind_assoc]

/-- The instruction in front of a position is there, and so is the one in front of it if that one clears what
is at an address. -/
def StoreInFront (code : Stream) (position : Nat) : Prop :=
  1 ≤ position ∧ ((code[position - 1]?).any (·.code == .initobj) = true → 2 ≤ position)

theorem storeInFront_of_mem_stores {code : Stream} {name : String} {p : Nat} (h : p ∈ code.stores name) :
    StoreInFront code p := by
  rcases Stream.mem_stores.mp h with ⟨i, hpos, hi, hstore⟩ | ⟨i, j, hpos, -, -, -, -⟩
  · refine ⟨hpos, fun hclear => ?_⟩
    have hcode : i.code = .stfld := (Op.storesTo_iff.mp hstore).1
    simp [hi, hcode] at hclear
  · exact ⟨by omega, fun _ => hpos⟩

theorem mem_stores_of_followed? {code : Stream} {field : Field} {event : Event} {p : Nat}
    (h : followed? options type plan w code = some (field, event)) (hp : p ∈ (plan.anchors code).1) :
    p ∈ code.stores field.name := by
  unfold followed? PropertyPlan.anchors at h
  unfold PropertyPlan.anchors at hp
  cases hbacking : plan.backing with
  | none => simp [hbacking] at h
  | some g =>
    cases hstores : code.stores g.name with
    | nil => simp [hbacking, hstores] at h
    | cons first rest =>
      simp only [hbacking, hstores, Option.map_eq_some_iff, Prod.mk.injEq] at h hp
      obtain ⟨e, -, rfl, -⟩ := h
      rw [hstores]
      exact hp

/-- The blocks of the anchors and the subscription do not move what is in front of the first anchor. -/
theorem getElem?_subscribing {ctx : BlockContext} {called : List String} {body : Body} {serial first : Nat}
    {field : Field} {handler add : MethodId} {d : Draft}
    (hfirst : (plan.anchors body.code).1.head? = some first)
    (hrun : (subscribing ctx called (plan.anchors body.code).1 first field handler add).run.run { body, serial }
      = (.ok (), d)) {p : Nat} (hp : p < first) : d.body.code[p]? = body.code[p]? := by
  have hle : first ≤ body.code.length :=
    PropertyPlan.le_length_of_mem_anchors (List.mem_of_mem_head? hfirst)
  obtain ⟨_, d₁, hanchors, hrest⟩ := bind_ok.mp hrun
  obtain ⟨subscribe, d₂, hblock, hinsert⟩ := bind_ok.mp hrest
  have hsorted := plan.pairwise_anchors body.code
  obtain ⟨blocks, hlaid, hnone, -⟩ := BlockContext.weaveAnchors_laid hsorted
    (fun a => PropertyPlan.le_length_of_mem_anchors) hanchors
  obtain ⟨-, -, rfl, -⟩ := BlockContext.subscriptionBlock_ok hblock
  -- the first anchor is the lowest, so there is no block in front of it
  have hlow : ∀ p, p < first → blocks p = [] := by
    obtain ⟨rest, hanchors⟩ := List.head?_eq_some_iff.mp hfirst
    rw [hanchors, List.pairwise_cons] at hsorted
    intro p hp
    refine hnone p fun hin => ?_
    rw [hanchors] at hin
    rcases List.mem_cons.mp hin with rfl | hin
    · omega
    · have := hsorted.1 p hin
      omega
  have hlong : first ≤ d₁.body.code.length := by
    rw [hlaid.code]
    exact Nat.le_trans hle (Stream.length_le_interleave blocks body.code)
  have hcode : d.body.code = d₁.body.code.take first ++ subscribe ++ d₁.body.code.drop first := by
    have hcode := insert_run (d := { d₁ with serial := d₁.serial + subscribe.length }) subscribe hlong
    rwa [hinsert] at hcode
  rw [hcode, List.append_assoc, List.getElem?_append_left (by rw [List.length_take]; omega),
    List.getElem?_take_of_lt hp, hlaid.code, BlockContext.getElem?_interleave_front hlow hp hle]

/-- Where the position of the store is counted back from the first anchor, the store is still in front of it. -/
theorem storeInFront_subscribing {ctx : BlockContext} {called : List String} {body : Body} {serial first : Nat}
    {field : Field} {event : Event} {handler add : MethodId} {d : Draft}
    (hfollowed : followed? options type plan w body.code = some (field, event))
    (hfirst : (plan.anchors body.code).1.head? = some first)
    (hrun : (subscribing ctx called (plan.anchors body.code).1 first field handler add).run.run { body, serial }
      = (.ok (), d)) : StoreInFront d.body.code first := by
  have hstore : StoreInFront body.code first :=
    storeInFront_of_mem_stores (mem_stores_of_followed? hfollowed (List.mem_of_mem_head? hfirst))
  have hsame : d.body.code[first - 1]? = body.code[first - 1]? :=
    getElem?_subscribing hfirst hrun (by have := hstore.1; omega)
  unfold StoreInFront
  rw [hsame]
  exact hstore

/-! ## The result -/

/-- Weaving a setter fails if and only if there is a reason to, and with such a reason. Only a resolver that
makes them itself can let it fail for a position that is not in the code or for an event without an accessor.
Where the position of the first store is counted back from the anchor behind it, it is in the code. -/
theorem setter_fails_iff (options : Options) (resolver : Resolver) (type : TypePlan) (plan : PropertyPlan)
    (w : Workpiece) :
    ((∃ e, ((setter options resolver type plan).run.run w).1 = .error e)
        ↔ ∃ e, Reason options resolver type plan w e)
      ∧ (∀ e, ((setter options resolver type plan).run.run w).1 = .error e →
        Reason options resolver type plan w e ∧ (e.Unforeseen → resolver.Refuses e))
      ∧ (resolver.Tells → ∀ e, ((setter options resolver type plan).run.run w).1 = .error e → ¬ e.Unforeseen)
      ∧ ∀ {body : Body} {field : Field} {event : Event} {first : Nat} {add remove : MethodId},
        followed? options type plan w body.code = some (field, event) →
        (plan.anchors body.code).1.head? = some first → event.add = some add → event.remove = some remove →
        ∀ (ctx : BlockContext) (called : List String) (handler : MethodId),
          edits ctx called (plan.anchors body.code).1 (some (field, event, handler)) = (do
            subscribing ctx called (plan.anchors body.code).1 first field handler add
            let store := BlockContext.storePosition (← get).body.code first
            Draft.insert store (← ctx.subscriptionBlock field handler remove)
            prependPrologue)
          ∧ ∀ {serial : Nat} {d : Draft},
            (subscribing ctx called (plan.anchors body.code).1 first field handler add).run.run { body, serial }
              = (.ok (), d) → StoreInFront d.body.code first := by
  have hreason := setter_reason options resolver type plan w
  have herror : ∀ e, ((setter options resolver type plan).run.run w).1 = .error e →
      Reason options resolver type plan w e := by
    intro e he
    rwa [he] at hreason
  refine ⟨⟨fun ⟨e, he⟩ => ⟨e, herror e he⟩, fun ⟨e, he⟩ => ?_⟩, fun e he => ⟨herror e he, (herror e he).refuses⟩,
    fun htells e he => (herror e he).foreseen htells, fun hfollowed hfirst hadd hremove ctx called handler =>
      ⟨edits_subscribing ctx called _ handler hadd hremove hfirst, storeInFront_subscribing hfollowed hfirst⟩⟩
  cases hresult : ((setter options resolver type plan).run.run w).1 with
  | ok woven =>
    rw [hresult] at hreason
    exact absurd he (hreason e)
  | error e' => exact ⟨e', rfl⟩

/-- The parts of the runtime surface of a chain, but no constructor of handlers. -/
def Chain.refusing : Resolver :=
  { Chain.resolver with handlerConstructor := fun _ => .error (.unresolved Surface.eventHandler) }

theorem Chain.tells_refusing : Chain.refusing.Tells := by
  rintro e ⟨m, h | h | h | h | h⟩ <;> cases h
  exact ⟨_, rfl⟩

/-- The setter of a node follows its value, so it is not woven without a constructor of handlers. If there is one,
the first store is looked for in front of position 5. -/
theorem setter_fails_chain :
    (Reason {} Chain.refusing Chain.type Chain.property ⟨Chain.module, {}⟩ (.unresolved Surface.eventHandler)
        ∧ ¬ (Error.unresolved Surface.eventHandler).Unforeseen)
      ∧ (∃ e, Reason {} Chain.refusing Chain.type Chain.property ⟨Chain.module, {}⟩ e)
      ∧ ∃ d, (subscribing ⟨{}, Chain.resolver, Chain.module, Chain.type, Chain.property⟩ []
        (Chain.property.anchors Chain.setNext.code).1 5 Chain.next ⟨5⟩ ⟨2⟩).run.run
          { body := Chain.setNext, serial := 0 } = (.ok (), d) ∧ StoreInFront d.body.code 5 := by
  have hresult : ((setter {} Chain.refusing Chain.type Chain.property).run.run ⟨Chain.module, {}⟩).1
      = .error (.unresolved Surface.eventHandler) := by decide +kernel
  have hfollowed : followed? {} Chain.type Chain.property ⟨Chain.module, {}⟩ Chain.setNext.code
      = some (Chain.next, Chain.changed) := by decide +kernel
  have hrun : ((subscribing ⟨{}, Chain.resolver, Chain.module, Chain.type, Chain.property⟩ []
      (Chain.property.anchors Chain.setNext.code).1 5 Chain.next ⟨5⟩ ⟨2⟩).run.run
        { body := Chain.setNext, serial := 0 }).1 = .ok () := by decide +kernel
  obtain ⟨hiff, hreasons, hforeseen, hlocated⟩ :=
    setter_fails_iff {} Chain.refusing Chain.type Chain.property ⟨Chain.module, {}⟩
  refine ⟨⟨(hreasons _ hresult).1, hforeseen Chain.tells_refusing _ hresult⟩, hiff.mp ⟨_, hresult⟩, ?_⟩
  cases hsubscribing : (subscribing ⟨{}, Chain.resolver, Chain.module, Chain.type, Chain.property⟩ []
      (Chain.property.anchors Chain.setNext.code).1 5 Chain.next ⟨5⟩ ⟨2⟩).run.run
        { body := Chain.setNext, serial := 0 } with
  | mk result d =>
    rw [hsubscribing] at hrun
    obtain rfl : result = _ := hrun
    exact ⟨d, rfl, (hlocated hfollowed rfl rfl rfl _ [] ⟨5⟩).2 hsubscribing⟩

end Weaving

end SetterLoom
