import SetterLoom.Proofs.Code.Names
import SetterLoom.Proofs.Weave.Added

/-!
# Edits under other names

An edit draws labels from where the supply stands, and it subscribes a handler that was just declared. If
both are others, the edit makes the same code under other names: it succeeds or fails in the same way, adds
the same slots, and takes as many labels.

* `Draft.Renames`: steps that do the same under other names.
* `BlockContext.Beside`: two contexts that answer alike.
* `renames_edits`, `renames_writeHandler`: the edits of a setter and of a handler.
-/

namespace SetterLoom
set_option autoImplicit false

namespace Steps

/-- Both runs succeed with related results, or both fail in the same way. -/
inductive Same {α β : Type} (Q : α → β → Prop) : Except Error α → Except Error β → Prop
  | ok {a : α} {b : β} (related : Q a b) : Same Q (.ok a) (.ok b)
  | error (e : Error) : Same Q (.error e) (.error e)

end Steps

namespace Draft

/-- The drafts are the same but for the names, and the labels that were drawn for them are as many. -/
structure Renamed (ρ : Renaming) (start start' : Nat) (d d' : Draft) : Prop where
  body : d'.body = ρ.body d.body
  serial : ∃ k, d.serial = start + k ∧ d'.serial = start' + k
  captures : d'.captures = d.captures
  prologue : d'.prologue = d.prologue
  fixed : d.prologue.map ρ.op = d.prologue
  calls : d'.calls = d.calls

variable {α α' β β' : Type} {ρ : Renaming} {start start' last : Nat}

/-- Under other names, and with labels from `start'` on for those from `start` on, the second steps do what
the first ones do, as long as these draw no label from `last` on. -/
def Renames (ρ : Renaming) (start start' last : Nat) (Q : α → α' → Prop) (steps : Drafting α)
    (steps' : Drafting α') : Prop :=
  ∀ d d', Renamed ρ start start' d d' → (steps.run.run d).2.serial ≤ last →
    Steps.Same Q (steps.run.run d).1 (steps'.run.run d').1
      ∧ Renamed ρ start start' (steps.run.run d).2 (steps'.run.run d').2

/-- The operations name nothing that gets another name. -/
def Fixed (ρ : Renaming) (ops ops' : List Op) : Prop := ops' = ops ∧ ops.map ρ.op = ops

theorem Fixed.append {ops ops' more more' : List Op} (h : Fixed ρ ops ops') (h' : Fixed ρ more more') :
    Fixed ρ (ops ++ more) (ops' ++ more') := by
  obtain ⟨rfl, hops⟩ := h
  obtain ⟨rfl, hmore⟩ := h'
  exact ⟨rfl, by rw [List.map_append, hops, hmore]⟩

theorem Fixed.map {ops ops' : List Op} (h : Fixed ρ ops ops') : ops' = ops.map ρ.op :=
  h.1.trans h.2.symm

section

variable {Q : α → α' → Prop} {P : β → β' → Prop}

theorem Renames.bind {x : Drafting α} {x' : Drafting α'} {f : α → Drafting β} {f' : α' → Drafting β'}
    (h : Renames ρ start start' last Q x x') (hadds : ∀ a, Adds (f a))
    (hf : ∀ a a', Q a a' → Renames ρ start start' last P (f a) (f' a')) :
    Renames ρ start start' last P (x >>= f) (x' >>= f') := by
  intro d d' hd hlast
  rw [Steps.bind_run] at hlast ⊢
  rw [Steps.bind_run]
  have hx := h d d' hd
  cases hrun : x.run.run d with
  | mk result d₁ =>
    cases hrun' : x'.run.run d' with
    | mk result' d₁' =>
      rw [hrun] at hlast hx
      rw [hrun'] at hx
      cases result with
      | error e =>
        obtain ⟨hsame, hdrafts⟩ := hx hlast
        cases hsame
        exact ⟨.error e, hdrafts⟩
      | ok a =>
        obtain ⟨hsame, hdrafts⟩ := hx (Nat.le_trans (hadds a d₁).serial hlast)
        obtain ⟨hrelated⟩ := hsame
        exact hf a _ hrelated d₁ d₁' hdrafts hlast

theorem renames_pure {a : α} {a' : α'} (h : Q a a') :
    Renames ρ start start' last Q (pure a) (pure a') :=
  fun _ _ hd _ => ⟨.ok h, hd⟩

theorem renames_throw (e : Error) : Renames ρ start start' last Q (throw e) (throw e) :=
  fun _ _ hd _ => ⟨.error e, hd⟩

theorem renames_get :
    Renames ρ start start' last (Renamed ρ start start') (get : Drafting Draft) get :=
  fun _ _ hd _ => ⟨.ok hd, hd⟩

theorem renames_lift {x : Except Error α} {Q : α → α → Prop} (h : ∀ a, x = .ok a → Q a a) :
    Renames ρ start start' last Q (liftM x : Drafting α) (liftM x) := by
  cases x with
  | error e => exact fun _ _ hd _ => ⟨.error e, hd⟩
  | ok a => exact fun _ _ hd _ => ⟨.ok (h a rfl), hd⟩

end

/-! ## Steps on a draft -/

theorem renames_addSlot (type : TypeId) :
    Renames ρ start start' last Eq (addSlot type) (addSlot type) := by
  intro d d' hd _
  have hslots : d'.body.slots = d.body.slots := by rw [hd.body]; rfl
  refine ⟨?_, ?_, hd.serial, hd.captures, hd.prologue, hd.fixed, hd.calls⟩
  · show Steps.Same Eq (.ok d.body.nextSlot) (.ok d'.body.nextSlot)
    unfold Body.nextSlot
    rw [hslots]
    exact .ok rfl
  · show d'.body.addSlot type = ρ.body (d.body.addSlot type)
    rw [hd.body]
    rfl

theorem renames_addCapture (c : Capture) {ops : List Op} (hops : ops.map ρ.op = ops) :
    Renames ρ start start' last (fun _ _ => True) (addCapture c ops) (addCapture c ops) := by
  intro d d' hd _
  refine ⟨.ok trivial, hd.body, hd.serial, ?_, ?_, ?_, hd.calls⟩
  · exact congrArg (· ++ [c]) hd.captures
  · exact congrArg (· ++ ops) hd.prologue
  · show (d.prologue ++ ops).map ρ.op = d.prologue ++ ops
    rw [List.map_append, hd.fixed, hops]

theorem renames_countCall :
    Renames ρ start start' last (fun _ _ => True) countCall countCall := fun _ _ hd _ =>
  ⟨.ok trivial, hd.body, hd.serial, hd.captures, hd.prologue, hd.fixed, congrArg (· + 1) hd.calls⟩

/-- The code is the same under other names. -/
abbrev Recoded (ρ : Renaming) (code code' : List Instruction) : Prop := code' = code.map ρ.instruction

theorem renames_labelled (hmoves : ρ.Moves start start' last) {ops ops' : List Op}
    (hops : ops' = ops.map ρ.op) :
    Renames ρ start start' last (Recoded ρ) (labelled ops) (labelled ops') := by
  rintro d d' ⟨hbody, ⟨k, hk, hk'⟩, hcaptures, hprologue, hfixed, hcalls⟩ hlast
  refine ⟨?_, hbody, ⟨k + ops.length, ?_, ?_⟩, hcaptures, hprologue, hfixed, hcalls⟩
  · show Steps.Same (Recoded ρ) (.ok (Instruction.drawFrom d.serial ops))
      (.ok (Instruction.drawFrom d'.serial ops'))
    refine .ok ?_
    rw [hk, hk', hops]
    refine (Renaming.map_drawFrom hmoves ops ?_).symm
    rw [← hk]
    exact hlast
  · show d.serial + ops.length = _
    rw [hk, Nat.add_assoc]
  · show d'.serial + ops'.length = _
    rw [hk', hops, List.length_map, Nat.add_assoc]

theorem renames_insert (position : Nat) {code code' : List Instruction} (hcode : Recoded ρ code code') :
    Renames ρ start start' last (fun _ _ => True) (insert position code) (insert position code') := by
  intro d d' hd _
  have hlength : d'.body.code.length = d.body.code.length := by
    rw [hd.body]
    exact List.length_map _
  by_cases hle : position ≤ d.body.code.length
  · have hrun : (insert position code).run.run d = (.ok (), { d with body := { d.body with
        code := d.body.code.take position ++ code ++ d.body.code.drop position } }) := by
      show insert position code d = _
      simp only [insert, Stream.insertAt_eq_ok code hle]
    have hrun' : (insert position code').run.run d' = (.ok (), { d' with body := { d'.body with
        code := d'.body.code.take position ++ code' ++ d'.body.code.drop position } }) := by
      show insert position code' d' = _
      simp only [insert, Stream.insertAt_eq_ok code' (hlength.symm ▸ hle)]
    rw [hrun, hrun']
    refine ⟨.ok trivial, ?_, hd.serial, hd.captures, hd.prologue, hd.fixed, hd.calls⟩
    show { d'.body with code := d'.body.code.take position ++ code' ++ d'.body.code.drop position }
      = ρ.body { d.body with code := d.body.code.take position ++ code ++ d.body.code.drop position }
    rw [hd.body, hcode]
    simp only [Renaming.body, List.map_append, List.map_take, List.map_drop]
  · have hlt := Nat.lt_of_not_le hle
    have hrun : (insert position code).run.run d
        = (.error (.positionOutOfRange position d.body.code.length), d) := by
      show insert position code d = _
      simp only [insert, Stream.insertAt_eq_error code hlt]
    have hrun' : (insert position code').run.run d'
        = (.error (.positionOutOfRange position d'.body.code.length), d') := by
      show insert position code' d' = _
      simp only [insert, Stream.insertAt_eq_error code' (hlength.symm ▸ hlt)]
    rw [hrun, hrun', hlength]
    exact ⟨.error _, hd⟩

theorem renames_append {code code' : List Instruction} (hcode : Recoded ρ code code') :
    Renames ρ start start' last (fun _ _ => True) (append code) (append code') := by
  intro d d' hd _
  refine ⟨.ok trivial, ?_, hd.serial, hd.captures, hd.prologue, hd.fixed, hd.calls⟩
  show { d'.body with code := d'.body.code ++ code' } = ρ.body { d.body with code := d.body.code ++ code }
  rw [hd.body, hcode]
  simp only [Renaming.body, List.map_append]

theorem renames_prependPrologue (hmoves : ρ.Moves start start' last) :
    Renames ρ start start' last (fun _ _ => True) prependPrologue prependPrologue := by
  refine renames_get.bind (fun d => keeps_fuller.bind (keeps_fuller.labelled d.prologue) fun code => fun d' =>
    ⟨List.sublist_append_right code d'.body.code, List.prefix_refl d'.body.slots,
      Nat.le_refl d'.serial⟩) fun x x' hx => ?_
  have hprologue : x'.prologue = x.prologue.map ρ.op := hx.prologue.trans hx.fixed.symm
  refine (renames_labelled hmoves hprologue).bind (fun code => fun d' =>
    ⟨List.sublist_append_right code d'.body.code, List.prefix_refl d'.body.slots,
      Nat.le_refl d'.serial⟩) fun code code' hcode => ?_
  intro d d' hd _
  refine ⟨.ok trivial, ?_, hd.serial, hd.captures, hd.prologue, hd.fixed, hd.calls⟩
  show { d'.body with code := code' ++ d'.body.code } = ρ.body { d.body with code := code ++ d.body.code }
  rw [hd.body, hcode]
  simp only [Renaming.body, List.map_append]

end Draft

/-! ## Contexts that answer alike -/

/-- Weaving finds the same in both contexts, and what it refers to keeps its name. -/
structure BlockContext.Beside (ρ : Renaming) (ctx ctx' : BlockContext) : Prop where
  options : ctx'.options = ctx.options
  property : ctx'.property = ctx.property
  invoker : ctx'.type.invoker = ctx.type.invoker
  dirtySetter : ctx'.type.dirtySetter = ctx.type.dirtySetter
  hook : ∀ target ∈ ctx.property.targets,
    ctx'.type.hook? ctx'.module (hookName target.name) = ctx.type.hook? ctx.module (hookName target.name)
  value : ∀ t, (ctx'.module.type? t).map (·.isValue) = (ctx.module.type? t).map (·.isValue)
  generic : (ctx'.module.method? ctx.type.invoker.method).any (·.isGeneric)
    = (ctx.module.method? ctx.type.invoker.method).any (·.isGeneric)
  objectType : ctx'.resolver.objectType ctx'.module = ctx.resolver.objectType ctx.module
  objectEquals : ctx'.resolver.objectEquals ctx'.module = ctx.resolver.objectEquals ctx.module
  handlerConstructor :
    ctx'.resolver.handlerConstructor ctx'.module = ctx.resolver.handlerConstructor ctx.module
  invoker_kept : ∀ i ∈ ctx.type.invoker.methods, ρ.method i = i
  dirtySetter_kept : ∀ i, ctx.type.dirtySetter = some i → ρ.method i = i
  hooks_kept : ∀ hook ∈ ctx.type.hooks, ρ.method hook.method = hook.method
  getters_kept : ∀ target ∈ ctx.property.targets, ∀ i, target.getter = some i → ρ.method i = i
  objectEquals_kept : ∀ i, ctx.resolver.objectEquals ctx.module = .ok i → ρ.method i = i
  handlerConstructor_kept : ∀ i, ctx.resolver.handlerConstructor ctx.module = .ok i → ρ.method i = i

namespace BlockContext

open Draft

variable {ctx ctx' : BlockContext} {ρ : Renaming} {start start' last : Nat}

private theorem op_method {code : OpCode} {i : MethodId} {arguments : List TypeId} (h : ρ.method i = i) :
    ρ.op ⟨code, .method ⟨i, arguments⟩⟩ = ⟨code, .method ⟨i, arguments⟩⟩ := by
  show (⟨code, .method ⟨ρ.method i, arguments⟩⟩ : Op) = _
  rw [h]

theorem hook_mem_of_hookFor? {called : List String} {target : Property} {hook : ChangeHook}
    (hfound : ctx.hookFor? called target = some hook) : hook ∈ ctx.type.hooks := by
  unfold hookFor? at hfound
  split at hfound
  · exact List.mem_of_find?_eq_some hfound
  · cases hfound

section

variable (h : ctx.Beside ρ ctx') {target : Property} (htarget : target ∈ ctx.property.targets)
include h

theorem renames_targetType (target : Property) :
    Renames ρ start start' last (fun d d' => d'.isValue = d.isValue) (ctx.targetType target)
      (ctx'.targetType target) := by
  have hvalue := h.value target.type
  unfold targetType
  cases hd : ctx.module.type? target.type with
  | none =>
    rw [hd, Option.map_none, Option.map_eq_none_iff] at hvalue
    rw [hvalue]
    exact renames_throw _
  | some d =>
    rw [hd, Option.map_some] at hvalue
    obtain ⟨d', hd', heq⟩ := Option.map_eq_some_iff.mp hvalue
    rw [hd']
    exact renames_pure heq

include htarget

theorem renames_readValue (boxed : Bool) :
    Renames ρ start start' last (fun x x' => x' = x ∧ x.1.map ρ.op = x.1) (ctx.readValue target boxed)
      (ctx'.readValue target boxed) := by
  unfold readValue
  cases hgetter : target.getter with
  | none => exact renames_throw _
  | some getter =>
    have hfixed : ∀ (d : TypeDef) (slot : UInt16),
        ([Op.ldarg 0, .callvirt getter] ++ (if boxed && d.isValue then [Op.box target.type] else [])
          ++ [Op.stloc slot] : List Op).map ρ.op
        = [Op.ldarg 0, .callvirt getter] ++ (if boxed && d.isValue then [Op.box target.type] else [])
          ++ [Op.stloc slot] := by
      intro d slot
      have hcall : ρ.op (.callvirt getter) = .callvirt getter :=
        op_method (h.getters_kept target htarget getter hgetter)
      rw [List.map_append, List.map_append, List.map_cons, List.map_cons, hcall]
      split <;> rfl
    have hslot : ∀ (d d' : TypeDef) (type : TypeId), d'.isValue = d.isValue →
        Renames ρ start start' last (fun x x' => x' = x ∧ x.1.map ρ.op = x.1)
          (addSlot type >>= fun slot => pure ([Op.ldarg 0, .callvirt getter]
            ++ (if boxed && d.isValue then [Op.box target.type] else []) ++ [Op.stloc slot], slot))
          (addSlot type >>= fun slot => pure ([Op.ldarg 0, .callvirt getter]
            ++ (if boxed && d'.isValue then [Op.box target.type] else []) ++ [Op.stloc slot], slot)) := by
      intro d d' type heq
      refine (renames_addSlot type).bind (fun _ => keeps_fuller.pure _) fun slot slot' hslot => ?_
      obtain rfl := hslot
      rw [heq]
      exact renames_pure ⟨rfl, hfixed d slot⟩
    dsimp only
    -- the type of the slot depends on boxing, but the code that is made does not name it
    refine (renames_targetType h target).bind (fun d => ?_) fun d d' heq => ?_
    · split
      · exact keeps_fuller.bind (keeps_fuller.lift _) fun type =>
          keeps_fuller.bind (keeps_fuller.addSlot type) fun _ => keeps_fuller.pure _
      · exact keeps_fuller.bind (keeps_fuller.pure target.type) fun type =>
          keeps_fuller.bind (keeps_fuller.addSlot type) fun _ => keeps_fuller.pure _
    · split
      · rw [h.objectType]
        refine (renames_lift (Q := Eq) fun _ _ => rfl).bind (fun type =>
          keeps_fuller.bind (keeps_fuller.addSlot type) fun _ => keeps_fuller.pure _) fun type type' htype => ?_
        obtain rfl := htype
        exact hslot d d' type heq
      · refine (renames_pure (Q := Eq) rfl).bind (fun type =>
          keeps_fuller.bind (keeps_fuller.addSlot type) fun _ => keeps_fuller.pure _) fun type type' htype => ?_
        obtain rfl := htype
        exact hslot d d' type heq

theorem renames_beforeSlot (source : BeforeSource) (boxed : Bool) (after : UInt16) :
    Renames ρ start start' last Eq (ctx.beforeSlot source target boxed after)
      (ctx'.beforeSlot source target boxed after) := by
  unfold beforeSlot
  cases source with
  | current => exact renames_pure rfl
  | entry =>
    refine renames_get.bind (fun d => ?_) fun d d' hd => ?_
    · split
      · exact keeps_fuller.pure _
      · exact keeps_fuller.bind (keeps_fuller.readValue ctx target boxed) fun y =>
          keeps_fuller.bind (keeps_fuller.addCapture _ _) fun _ => keeps_fuller.pure _
    · have hcapture : d'.capture? target.name boxed = d.capture? target.name boxed := by
        unfold capture?
        rw [hd.captures]
      rw [hcapture]
      cases d.capture? target.name boxed with
      | some slot => exact renames_pure rfl
      | none =>
        refine (renames_readValue h htarget boxed).bind (fun y =>
          keeps_fuller.bind (keeps_fuller.addCapture _ _) fun _ => keeps_fuller.pure _) fun x x' hx => ?_
        obtain ⟨rfl, hfixed⟩ := hx
        exact (renames_addCapture _ hfixed).bind (fun _ => keeps_fuller.pure _) fun _ _ _ => renames_pure rfl

theorem renames_readBoth (source : BeforeSource) (boxed : Bool) :
    Renames ρ start start' last (fun x x' => x' = x ∧ x.1.map ρ.op = x.1)
      (ctx.readBoth source target boxed) (ctx'.readBoth source target boxed) := by
  unfold readBoth
  refine (renames_readValue h htarget boxed).bind (fun x => ?_) fun x x' hx => ?_
  · exact keeps_fuller.bind (keeps_fuller.beforeSlot ctx source target boxed x.2) fun _ => keeps_fuller.pure _
  · obtain ⟨rfl, hfixed⟩ := hx
    refine (renames_beforeSlot h htarget source boxed _).bind (fun _ => keeps_fuller.pure _) fun b b' hb => ?_
    obtain rfl := hb
    exact renames_pure ⟨rfl, hfixed⟩

omit htarget in
theorem renames_callInvoker {i : MethodId} (hi : i = ctx.type.invoker.method) (target : Property) :
    Renames ρ start start' last (fun o o' => o' = o ∧ ρ.op o = o) (ctx.callInvoker i target)
      (ctx'.callInvoker i target) := by
  have hkept : ρ.method i = i := h.invoker_kept i (by
    rw [hi]
    cases ctx.type.invoker <;> exact List.mem_cons_self)
  unfold callInvoker
  rw [hi, h.generic, ← hi]
  split
  · exact (renames_targetType h target).bind (fun _ => keeps_fuller.pure _) fun _ _ _ =>
      renames_pure ⟨rfl, op_method hkept⟩
  · exact renames_pure ⟨rfl, op_method hkept⟩

theorem renames_callWithValues (source : BeforeSource) (boxed : Bool) {i : MethodId}
    (hi : i = ctx.type.invoker.method) :
    Renames ρ start start' last (Fixed ρ) (ctx.callWithValues source target boxed i)
      (ctx'.callWithValues source target boxed i) := by
  unfold callWithValues
  refine (renames_readBoth h htarget source boxed).bind (fun x =>
    keeps_fuller.bind (keeps_fuller.callInvoker ctx i target) fun _ => keeps_fuller.pure _) fun x x' hx => ?_
  obtain ⟨rfl, hfixed⟩ := hx
  refine (renames_callInvoker h hi target).bind (fun _ => keeps_fuller.pure _) fun call call' hcall => ?_
  obtain ⟨rfl, hcall⟩ := hcall
  refine renames_pure ⟨rfl, ?_⟩
  rw [List.map_append, hfixed]
  simp only [List.map_cons, List.map_nil, hcall]
  rfl

theorem renames_invokerCall (source : BeforeSource) :
    Renames ρ start start' last (Fixed ρ) (ctx.invokerCall source target)
      (ctx'.invokerCall source target) := by
  have hfixed : ∀ (ops : List Op) (i : MethodId), i = ctx.type.invoker.method →
      ops.map ρ.op = ops →
      Renames ρ start start' last (Fixed ρ) (ctx.callInvoker i target >>= fun call => pure (ops ++ [call]))
        (ctx'.callInvoker i target >>= fun call => pure (ops ++ [call])) := by
    intro ops i hi hops
    refine (renames_callInvoker h hi target).bind (fun _ => keeps_fuller.pure _) fun call call' hcall => ?_
    obtain ⟨rfl, hcall⟩ := hcall
    exact renames_pure ⟨rfl, by rw [List.map_append, hops, List.map_singleton, hcall]⟩
  have hkept := h.invoker_kept
  unfold invokerCall
  rw [h.invoker]
  cases hinvoker : ctx.type.invoker with
  | simple i => exact hfixed [.ldarg 0, .ldstr target.name] i (by rw [hinvoker]; rfl) rfl
  | arguments i c =>
    have hnew : ρ.op (.newobj c) = .newobj c := op_method (hkept c (by simp [hinvoker, Invoker.methods]))
    refine hfixed [.ldarg 0, .ldstr target.name, .newobj c] i (by rw [hinvoker]; rfl) ?_
    simp only [List.map_cons, List.map_nil, hnew]
    rfl
  | senderAndArguments i c =>
    have hnew : ρ.op (.newobj c) = .newobj c := op_method (hkept c (by simp [hinvoker, Invoker.methods]))
    refine hfixed [.ldarg 0, .ldarg 0, .ldstr target.name, .newobj c] i (by rw [hinvoker]; rfl) ?_
    simp only [List.map_cons, List.map_nil, hnew]
    rfl
  | beforeAfter i | typedBeforeAfter i =>
    exact renames_callWithValues h htarget source _ (by rw [hinvoker]; rfl)

theorem renames_hookCall {hook : ChangeHook} (hhook : hook ∈ ctx.type.hooks) :
    Renames ρ start start' last (Fixed ρ) (ctx.hookCall target hook) (ctx'.hookCall target hook) := by
  have hkept := h.hooks_kept hook hhook
  unfold hookCall
  cases hook with
  | noArguments i =>
    refine renames_pure ⟨rfl, ?_⟩
    have hcall : ρ.op (.callvirt i) = .callvirt i := op_method hkept
    simp only [List.map_cons, List.map_nil, hcall]
    rfl
  | beforeAfter i =>
    refine (renames_readBoth h htarget .entry true).bind (fun _ => keeps_fuller.pure _) fun x x' hx => ?_
    obtain ⟨rfl, hfixed⟩ := hx
    refine renames_pure ⟨rfl, ?_⟩
    have hcall : ρ.op (.callvirt i) = .callvirt i := op_method hkept
    rw [List.map_append, hfixed]
    simp only [List.map_cons, List.map_nil, hcall]
    rfl

theorem renames_targetBlock (called : List String) :
    Renames ρ start start' last (Fixed ρ) (ctx.targetBlock called target)
      (ctx'.targetBlock called target) := by
  have hfor : ctx'.hookFor? called target = ctx.hookFor? called target := by
    unfold hookFor?
    rw [h.options, h.hook target htarget]
  have hannounced : ∀ hook hook', Fixed ρ hook hook' →
      Renames ρ start start' last (Fixed ρ)
        (if ctx.property.announces target.name then pure hook
          else ctx.invokerCall .entry target >>= fun call => countCall >>= fun _ => pure (hook ++ call))
        (if ctx'.property.announces target.name then pure hook'
          else ctx'.invokerCall .entry target >>= fun call =>
            countCall >>= fun _ => pure (hook' ++ call)) := by
    intro hook hook' hhook
    rw [h.property]
    split
    · exact renames_pure hhook
    · exact (renames_invokerCall h htarget .entry).bind
        (fun _ => keeps_fuller.bind adds_countCall fun _ => keeps_fuller.pure _)
        fun call call' hcall => renames_countCall.bind (fun _ => keeps_fuller.pure _) fun _ _ _ =>
          renames_pure (hhook.append hcall)
  unfold targetBlock
  rw [hfor]
  dsimp only
  cases hhook : ctx.hookFor? called target with
  | none => exact hannounced [] [] ⟨rfl, rfl⟩
  | some hook =>
    exact (renames_hookCall h htarget (hook_mem_of_hookFor? hhook)).bind (ctx.adds_announcement target)
      hannounced

omit htarget in
theorem renames_targetBlocks (called : List String) {targets : List Property}
    (htargets : ∀ t ∈ targets, t ∈ ctx.property.targets) :
    Renames ρ start start' last (Fixed ρ) (ctx.targetBlocks called targets)
      (ctx'.targetBlocks called targets) := by
  induction targets with
  | nil => exact renames_pure ⟨rfl, rfl⟩
  | cons target rest ih =>
    exact (renames_targetBlock h (htargets target List.mem_cons_self) called).bind
      (fun _ => keeps_fuller.bind (ctx.adds_targetBlocks called rest) fun _ => keeps_fuller.pure _)
      fun ops ops' hops =>
        (ih fun t ht => htargets t (List.mem_cons_of_mem _ ht)).bind (fun _ => keeps_fuller.pure _)
          fun more more' hmore => renames_pure (hops.append hmore)

omit htarget in
theorem renames_changeBlock (called : List String) :
    Renames ρ start start' last (Fixed ρ) (ctx.changeBlock called) (ctx'.changeBlock called) := by
  have hdirty : Fixed ρ ctx.dirtyFlagOps ctx'.dirtyFlagOps := by
    have hsame : ctx'.dirtySetter? = ctx.dirtySetter? := by
      unfold dirtySetter?
      rw [h.options, h.property, h.dirtySetter]
    unfold dirtyFlagOps
    rw [hsame]
    cases hdirty : ctx.dirtySetter? with
    | none => exact ⟨rfl, rfl⟩
    | some i =>
      have hset : ctx.type.dirtySetter = some i := by
        unfold dirtySetter? at hdirty
        split at hdirty
        · exact hdirty
        · cases hdirty
      have hcall : ρ.op (.callvirt i) = .callvirt i := op_method (h.dirtySetter_kept i hset)
      refine ⟨rfl, ?_⟩
      simp only [List.map_cons, List.map_nil, hcall]
      rfl
  unfold changeBlock
  rw [h.property]
  exact (renames_targetBlocks h called fun _ ht => ht).bind (fun _ => keeps_fuller.pure _) fun ops ops' hops =>
    renames_pure (hdirty.append hops)

omit htarget in
theorem renames_handlerOps {targets : List Property} (htargets : ∀ t ∈ targets, t ∈ ctx.property.targets) :
    Renames ρ start start' last (Fixed ρ) (ctx.handlerOps targets) (ctx'.handlerOps targets) := by
  induction targets with
  | nil => exact renames_pure ⟨rfl, rfl⟩
  | cons target rest ih =>
    exact (renames_invokerCall h (htargets target List.mem_cons_self) .current).bind
      (fun _ => keeps_fuller.bind (keeps_fuller.handlerOps ctx rest) fun _ => keeps_fuller.pure _)
      fun ops ops' hops =>
        (ih fun t ht => htargets t (List.mem_cons_of_mem _ ht)).bind (fun _ => keeps_fuller.pure _)
          fun more more' hmore => renames_pure (hops.append hmore)

end

/-! ## The edits -/

section

variable (h : ctx.Beside ρ ctx') (hmoves : ρ.Moves start start' last)
include h hmoves

theorem renames_weaveAnchor (called : List String) (anchor : Nat) :
    Renames ρ start start' last (fun _ _ => True) (ctx.weaveAnchor called anchor)
      (ctx'.weaveAnchor called anchor) :=
  (renames_changeBlock h called).bind
    (fun _ => keeps_fuller.bind (keeps_fuller.labelled _) fun _ => adds_insert anchor _)
    fun _ _ hops => (renames_labelled hmoves hops.map).bind (fun _ => adds_insert anchor _)
      fun _ _ hcode => renames_insert anchor hcode

theorem renames_writeHandler :
    Renames ρ start start' last (fun _ _ => True) ctx.writeHandler ctx'.writeHandler := by
  unfold writeHandler
  rw [h.property]
  exact (renames_handlerOps h fun _ ht => ht).bind
    (fun _ => keeps_fuller.bind (keeps_fuller.labelled _) fun _ => keeps_fuller.append _) fun _ _ hops =>
      (renames_labelled hmoves hops.map).bind (fun _ => keeps_fuller.append _) fun _ _ hcode =>
        renames_append hcode

omit hmoves in
theorem renamed_subscriptionOps (field : Field) {equals constructor handler handler' accessor : MethodId}
    {label label' : Label} (hequals : ρ.method equals = equals)
    (hconstructor : ρ.method constructor = constructor) (hhandler : ρ.method handler = handler')
    (haccessor : ρ.method accessor = accessor) (hlabel : ρ.label label = label') :
    ctx'.subscriptionOps field equals constructor handler' accessor label'
      = (ctx.subscriptionOps field equals constructor handler accessor label).map ρ.op := by
  have hvalue : (ctx'.module.type? field.type).any (·.isValue)
      = (ctx.module.type? field.type).any (·.isValue) := by
    have hmap := congrArg (Option.any id) (h.value field.type)
    rwa [Option.any_map, Option.any_map] at hmap
  have hcompare : ρ.op (.call equals) = .call equals := op_method hequals
  have hbranch : ρ.op (.branch .brtrue label) = .branch .brtrue label' := by
    rw [← hlabel]
    rfl
  have hpointer : ρ.op (.ldftn handler) = .ldftn handler' := by
    rw [← hhandler]
    rfl
  have hnew : ρ.op (.newobj constructor) = .newobj constructor := op_method hconstructor
  have hcall : ρ.op (.callvirt accessor) = .callvirt accessor := op_method haccessor
  unfold subscriptionOps
  rw [hvalue]
  dsimp only
  simp only [List.map_append, List.map_cons, List.map_nil, hcompare, hbranch, hpointer, hnew, hcall]
  split <;> rfl

theorem renames_subscriptionBlock (field : Field) {handler handler' accessor : MethodId}
    (hhandler : ρ.method handler = handler') (haccessor : ρ.method accessor = accessor) :
    Renames ρ start start' last (Recoded ρ) (ctx.subscriptionBlock field handler accessor)
      (ctx'.subscriptionBlock field handler' accessor) := by
  have hadds : ∀ ops nop, Adds (labelled ops >>= fun code => pure (code ++ nop)) :=
    fun ops _ => keeps_fuller.bind (keeps_fuller.labelled ops) fun _ => keeps_fuller.pure _
  unfold subscriptionBlock
  rw [h.objectEquals, h.handlerConstructor]
  refine (renames_lift (Q := fun i i' => i' = i ∧ ρ.method i = i)
    fun i hi => ⟨rfl, h.objectEquals_kept i hi⟩).bind (fun _ => keeps_fuller.bind (keeps_fuller.lift _) fun _ =>
      keeps_fuller.bind keeps_fuller.get fun _ => keeps_fuller.bind (keeps_fuller.labelled _) (hadds _))
    fun equals equals' hequals => ?_
  obtain ⟨rfl, hequals⟩ := hequals
  refine (renames_lift (Q := fun i i' => i' = i ∧ ρ.method i = i)
    fun i hi => ⟨rfl, h.handlerConstructor_kept i hi⟩).bind (fun _ =>
      keeps_fuller.bind keeps_fuller.get fun _ => keeps_fuller.bind (keeps_fuller.labelled _) (hadds _))
    fun constructor constructor' hconstructor => ?_
  obtain ⟨rfl, hconstructor⟩ := hconstructor
  intro d d' hd hlast
  have hget : ∀ d : Draft, (get : Drafting Draft).run.run d = (.ok d, d) := fun _ => rfl
  rw [Steps.bind_run, hget] at hlast ⊢
  rw [Steps.bind_run, hget]
  dsimp only at hlast ⊢
  -- the label at the end of the block is drawn with it, so it moves along
  have hlabel : ρ.label (.drawn d.serial) = .drawn d'.serial := by
    rw [Steps.bind_run] at hlast
    have hdrawn := (hadds (ctx.subscriptionOps field equals' constructor' handler accessor
      (.drawn d.serial)) (Instruction.drawFrom d.serial [.nop]) { d with serial := d.serial + 1 }).serial
    have hlt : d.serial < last := Nat.lt_of_lt_of_le (Nat.lt_succ_self _) (Nat.le_trans hdrawn hlast)
    obtain ⟨k, hk, hk'⟩ := hd.serial
    rw [hk, hk']
    exact hmoves k (hk ▸ hlt)
  have hfixed : ([.nop] : List Op) = [.nop].map ρ.op := rfl
  refine (renames_labelled hmoves hfixed).bind (hadds _) (fun nop nop' hnop => ?_) d d' hd hlast
  refine (renames_labelled hmoves (renamed_subscriptionOps h field hequals hconstructor hhandler
    haccessor hlabel)).bind (fun _ => keeps_fuller.pure _) fun code code' hcode => renames_pure ?_
  show code' ++ nop' = (code ++ nop).map ρ.instruction
  rw [hnop, hcode, List.map_append]

theorem renames_weaveSubscription (field : Field) {event : Event} {handler handler' : MethodId}
    (hhandler : ρ.method handler = handler') (hevent : ∀ i ∈ event.methods, ρ.method i = i)
    (anchor : Nat) :
    Renames ρ start start' last (fun _ _ => True) (ctx.weaveSubscription field event handler anchor)
      (ctx'.weaveSubscription field event handler' anchor) := by
  unfold weaveSubscription
  cases hadd : event.add with
  | none => exact renames_throw _
  | some add =>
    cases hremove : event.remove with
    | none => exact renames_throw _
    | some remove =>
      have hadd : ρ.method add = add := hevent add (by simp [Event.methods, hadd])
      have hremove : ρ.method remove = remove := hevent remove (by simp [Event.methods, hremove])
      have htaken : ∀ position, Adds (ctx.subscriptionBlock field handler remove >>= insert position) := fun _ =>
        keeps_fuller.bind (keeps_fuller.subscriptionBlock ctx field handler remove) fun _ => adds_insert _ _
      refine (renames_subscriptionBlock h hmoves field hhandler hadd).bind (fun _ =>
        keeps_fuller.bind (adds_insert anchor _) fun _ => keeps_fuller.bind keeps_fuller.get fun _ => htaken _)
        fun code code' hcode => ?_
      refine (renames_insert anchor hcode).bind (fun _ => keeps_fuller.bind keeps_fuller.get fun _ => htaken _)
        fun _ _ _ => ?_
      refine renames_get.bind (fun _ => htaken _) fun d d' hd => ?_
      have hstore : storePosition d'.body.code anchor = storePosition d.body.code anchor := by
        have hcode : d'.body.code = d.body.code.map ρ.instruction := by rw [hd.body]; rfl
        unfold storePosition
        rw [hcode, List.getElem?_map, Option.any_map]
        rfl
      rw [hstore]
      exact (renames_subscriptionBlock h hmoves field hhandler hremove).bind (fun _ => adds_insert _ _)
        fun _ _ hcode => renames_insert _ hcode

end

end BlockContext

open Draft BlockContext in
/-- The edits of a setter's body do the same under other names. -/
theorem Weaving.renames_edits {ρ : Renaming} {start start' last : Nat} {ctx ctx' : BlockContext}
    (h : ctx.Beside ρ ctx') (hmoves : ρ.Moves start start' last) (called : List String)
    (anchors : List Nat) {subscription : Option (Field × Event × MethodId)}
    (hevent : ∀ s, subscription = some s → ∀ i ∈ s.2.1.methods, ρ.method i = i) :
    Renames ρ start start' last (fun _ _ => True) (edits ctx called anchors subscription)
      (edits ctx' called anchors (subscription.map fun s => (s.1, s.2.1, ρ.method s.2.2))) := by
  have hanchors : ∀ list : List Nat, Renames ρ start start' last (fun _ _ => True)
      (list.forM (ctx.weaveAnchor called)) (list.forM (ctx'.weaveAnchor called)) := by
    intro list
    induction list with
    | nil => exact renames_pure trivial
    | cons anchor rest ih =>
      rw [List.forM_eq_forM, List.forM_cons, List.forM_cons]
      exact (renames_weaveAnchor h hmoves called anchor).bind
        (fun _ => ctx.adds_weaveAnchors called rest) fun _ _ _ => ih
  have hprologue := renames_prependPrologue (ρ := ρ) hmoves
  unfold edits
  cases subscription with
  | none => exact (hanchors anchors.reverse).bind (fun _ => keeps_fuller.prependPrologue) fun _ _ _ => hprologue
  | some s =>
    obtain ⟨field, event, handler⟩ := s
    cases anchors with
    | nil => exact (hanchors _).bind (fun _ => keeps_fuller.prependPrologue) fun _ _ _ => hprologue
    | cons first rest =>
      refine (hanchors _).bind (fun _ =>
        keeps_fuller.bind (keeps_fuller.weaveSubscription ctx field event handler first)
          fun _ => keeps_fuller.prependPrologue) fun _ _ _ => ?_
      exact (renames_weaveSubscription h hmoves field rfl (hevent _ rfl) first).bind
        (fun _ => keeps_fuller.prependPrologue) fun _ _ _ => hprologue

end SetterLoom
