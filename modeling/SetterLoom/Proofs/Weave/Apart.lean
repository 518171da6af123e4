import Mathlib.Data.List.Perm.Subperm
import SetterLoom.Proofs.Weave.Plain
import SetterLoom.Proofs.Weave.Targets
import SetterLoom.Proofs.Weave.Woven

/-!
# The slots of woven code

Woven code stores values into slots of its own, and so does a handler. A slot that is added gets the next index,
reduced to 16 bits. So the slots are apart from each other and from those of the setter exactly as long as there
are no more than 16 bits can tell apart; past that the index of a new slot is that of an old one, and nothing
fails.

* `Body.addSlot_apart`: a slot that is added to a body.
* `Fills.apart_iff`: when slots that are numbered one after the other are apart.
* `Weaving.slots_apart`: the slots of the setter that is woven, and of its handler.
* `Weaving.slots_meet`: a setter with more slots than can be addressed.
-/

namespace SetterLoom
set_option autoImplicit false

/-! ## One slot -/

namespace Body

theorem toNat_nextSlot (b : Body) : b.nextSlot.toNat = b.slots.length % 65536 :=
  UInt16.toNat_ofNat'

/-- A slot that is added leaves the others as they are, and is found under its index exactly as long as the
slots fit into 16 bits. Past that its index is that of an old slot. -/
theorem addSlot_apart (b : Body) (type : TypeId) :
    (∀ i : UInt16, i.toNat < b.slots.length → (b.addSlot type).slot? i = b.slot? i)
      ∧ (b.nextSlot.toNat = b.slots.length ↔ b.slots.length < 65536)
      ∧ (b.slots.length < 65536 → (b.addSlot type).slot? b.nextSlot = some type)
      ∧ (65536 ≤ b.slots.length → b.nextSlot.toNat < b.slots.length
        ∧ (b.addSlot type).slot? b.nextSlot = b.slot? b.nextSlot) := by
  have hnext := b.toNat_nextSlot
  refine ⟨fun i => b.slot?_addSlot_old type, by omega, b.slot?_addSlot_new type, fun hlong => ?_⟩
  have hold : b.nextSlot.toNat < b.slots.length := by omega
  exact ⟨hold, b.slot?_addSlot_old type hold⟩

end Body

/-! ## Slots in code -/

/-- The slot that an operation loads or stores into. -/
def Op.slot? (op : Op) : Option UInt16 :=
  match op.operand with
  | .slot i => some i
  | _ => none

/-- The slots that code uses, in order. -/
def usedSlots (ops : List Op) : List UInt16 := ops.filterMap Op.slot?

@[simp] theorem usedSlots_append (ops ops' : List Op) :
    usedSlots (ops ++ ops') = usedSlots ops ++ usedSlots ops' :=
  List.filterMap_append

/-- The code uses only slots of a range, and stores into each at most once. -/
structure Apart (first count : Nat) (ops : List Op) : Prop where
  inside : ∀ i ∈ usedSlots ops, first ≤ i.toNat ∧ i.toNat < first + count
  nodup : (storedSlots ops).Nodup

/-- The code stores into slots that are numbered one after the other, and loads no others. -/
structure Fills (first count : Nat) (ops : List Op) : Prop where
  stored : (storedSlots ops).Perm ((List.range' first count).map UInt16.ofNat)
  used : ∀ i ∈ usedSlots ops, i ∈ storedSlots ops

theorem usedSlots_of_storedSlots {ops : List Op} {i : UInt16} (h : i ∈ storedSlots ops) : i ∈ usedSlots ops := by
  obtain ⟨op, hop, hslot⟩ := List.mem_filterMap.mp h
  refine List.mem_filterMap.mpr ⟨op, hop, ?_⟩
  unfold Op.storedSlot? at hslot
  unfold Op.slot?
  split at hslot
  · rename_i hoperand
    rw [hoperand]
    exact hslot
  · cases hslot

/-- Slots that are numbered one after the other are apart exactly if 16 bits can tell them apart. -/
theorem Fills.apart_iff {first count : Nat} {ops : List Op} (h : Fills first count ops) :
    Apart first count ops ↔ first + count ≤ 65536 ∨ count = 0 := by
  constructor
  · intro hapart
    have hlength : (storedSlots ops).length = count := by
      rw [h.stored.length_eq, List.length_map, List.length_range']
    have hnodup : ((storedSlots ops).map (·.toNat)).Nodup :=
      hapart.nodup.map fun _ _ => UInt16.toNat_inj.mp
    have hsub : (storedSlots ops).map (·.toNat) ⊆ List.range' first (65536 - first) := by
      intro n hn
      obtain ⟨i, hi, rfl⟩ := List.mem_map.mp hn
      have hinside := hapart.inside i (usedSlots_of_storedSlots hi)
      have hsize := i.toNat_lt
      exact List.mem_range'_1.mpr (by omega)
    have hle := (List.subperm_of_subset hnodup hsub).length_le
    rw [List.length_map, List.length_range', hlength] at hle
    omega
  · rintro (hfit | rfl)
    · have hperm := Weaving.toNat_perm_of_fits h.stored hfit
      refine ⟨fun i hi => ?_, ?_⟩
      · exact List.mem_range'_1.mp (hperm.mem_iff.mp (List.mem_map_of_mem (h.used i hi)))
      · exact (hperm.nodup_iff.mpr List.nodup_range').of_map
    · have hnone : storedSlots ops = [] := h.stored.eq_nil
      refine ⟨fun i hi => ?_, hnone ▸ List.nodup_nil⟩
      exact absurd (h.used i hi) (by simp [hnone])

/-- The code loads only what it stores, and what is stored on entry. -/
def Covered (entry : UInt16 → Prop) (ops : List Op) : Prop :=
  ∀ i ∈ usedSlots ops, i ∈ storedSlots ops ∨ entry i

namespace Covered

variable {entry : UInt16 → Prop} {ops ops' : List Op}

theorem of_none (h : usedSlots ops = []) : Covered entry ops := by
  intro i hi
  rw [h] at hi
  cases hi

theorem append (h : Covered entry ops) (h' : Covered entry ops') : Covered entry (ops ++ ops') := by
  intro i hi
  rw [usedSlots_append, List.mem_append] at hi
  rw [storedSlots_append, List.mem_append]
  rcases hi with hi | hi
  · exact (h i hi).imp_left .inl
  · exact (h' i hi).imp_left .inr

theorem flatMap {α : Type} {l : List α} {f : α → List Op} (h : ∀ x ∈ l, Covered entry (f x)) :
    Covered entry (l.flatMap f) := by
  induction l with
  | nil => exact of_none rfl
  | cons x rest ih =>
    rw [List.flatMap_cons]
    exact (h x List.mem_cons_self).append (ih fun y hy => h y (List.mem_cons_of_mem _ hy))

end Covered

namespace BlockContext

variable {ctx : BlockContext} {called : List String} {target : Property} {before : String → Bool → UInt16}
  {ops : List Op} {d d' : Draft} {entry : UInt16 → Prop}

/-! ## The blocks of a setter -/

@[simp] theorem usedSlots_readOps (target : Property) (boxed : Bool) (slot : UInt16) :
    usedSlots (ctx.readOps target boxed slot) = [slot] := by
  unfold readOps
  cases target.getter with
  | none => dsimp only; split <;> rfl
  | some getter => dsimp only; split <;> rfl

theorem usedSlots_dirtyFlagOps (ctx : BlockContext) : usedSlots ctx.dirtyFlagOps = [] := by
  unfold dirtyFlagOps
  split <;> rfl

theorem covered_values {boxed : Bool} {after : UInt16} {rest : List Op} (hentry : entry (before target.name boxed))
    (hrest : usedSlots rest = [before target.name boxed, after]) :
    Covered entry (ctx.readOps target boxed after ++ rest) := by
  intro i hi
  rw [usedSlots_append, usedSlots_readOps, hrest] at hi
  rw [storedSlots_append, storedSlots_readOps]
  rcases List.mem_append.mp hi with hi | hi
  · exact .inl (List.mem_append_left _ hi)
  · rcases List.mem_cons.mp hi with rfl | hi
    · exact .inr hentry
    · exact .inl (List.mem_append_left _ hi)

theorem covered_announceOps {after : UInt16}
    (hentry : ∀ boxed ∈ invokerForms ctx.type.invoker, entry (before target.name boxed)) :
    Covered entry (ctx.announceOps target before after) := by
  obtain ⟨types, hop⟩ := ctx.callOp_eq ctx.type.invoker.method target
  unfold announceOps
  rw [hop]
  cases hinvoker : ctx.type.invoker with
  | simple i | arguments i c | senderAndArguments i c => exact .of_none rfl
  | beforeAfter i | typedBeforeAfter i =>
    rw [hinvoker] at hentry
    dsimp only
    rw [List.append_assoc]
    exact covered_values (hentry _ List.mem_cons_self) rfl

theorem covered_hookOps {hook : ChangeHook} {after : UInt16}
    (hentry : ∀ boxed ∈ hookForms hook, entry (before target.name boxed)) :
    Covered entry (ctx.hookOps target hook before after) := by
  cases hook with
  | noArguments i => exact .of_none rfl
  | beforeAfter i => exact covered_values (hentry _ List.mem_cons_self) rfl

theorem covered_targetOps {after : AfterSlots}
    (hentry : ∀ boxed ∈ ctx.targetForms called target, entry (before target.name boxed)) :
    Covered entry (ctx.targetOps called before target after) := by
  unfold targetForms at hentry
  unfold targetOps
  refine Covered.append ?_ ?_
  · cases hhook : ctx.hookFor? called target with
    | none => exact .of_none rfl
    | some hook =>
      rw [hhook] at hentry
      exact covered_hookOps fun boxed hboxed => hentry boxed (List.mem_append_left _ hboxed)
  · split
    · exact .of_none rfl
    · rename_i hnot
      rw [if_neg hnot] at hentry
      exact covered_announceOps fun boxed hboxed => hentry boxed (List.mem_append_right _ hboxed)

theorem covered_changeOps {after : List AfterSlots} :
    Covered (fun i => ∃ q ∈ ctx.targetsReadings called ctx.property.targets, i = before q.1.name q.2)
      (ctx.changeOps called before after) := by
  unfold changeOps targetsOps
  refine Covered.append (.of_none ctx.usedSlots_dirtyFlagOps) (Covered.flatMap fun t ht => ?_)
  have htarget : t.1 ∈ ctx.property.targets := (List.of_mem_zip ht).1
  refine covered_targetOps fun boxed hboxed => ⟨(t.1, boxed), ?_, rfl⟩
  exact List.mem_flatMap.mpr ⟨t.1, htarget, List.mem_map_of_mem hboxed⟩

theorem covered_entryOps (readings : List Reading) : Covered entry (ctx.entryOps readings before) := by
  refine Covered.flatMap fun q _ i hi => .inl ?_
  rw [usedSlots_readOps] at hi
  rw [storedSlots_readOps]
  exact hi

theorem usedSlots_subscriptionOps (field : Field) (equals handlerConstructor handler accessor : MethodId)
    (last : Label) :
    usedSlots (ctx.subscriptionOps field equals handlerConstructor handler accessor last) = [] := by
  unfold subscriptionOps
  dsimp only
  split <;> rfl

theorem Subscribes.covered {field : Field} {handler accessor : MethodId} {code : List Instruction}
    (h : ctx.Subscribes field handler accessor code) : Covered entry (code.map (·.op)) := by
  obtain ⟨equals, handlerConstructor, last, front, -, -, rfl, hops⟩ := h
  rw [List.map_append, hops]
  exact Covered.append (.of_none (usedSlots_subscriptionOps ..)) (.of_none rfl)

/-! ## The handler -/

/-- The code stores into the slots that the draft gained, in order, and loads no others. -/
structure TakesSlots (d d' : Draft) (ops : List Op) : Prop where
  code : d'.body.code = d.body.code
  slots : ∃ new, d'.body.slots = d.body.slots ++ new
    ∧ storedSlots ops = (List.range' d.body.slots.length new.length).map UInt16.ofNat
  covered : Covered (fun _ => False) ops

theorem takes_of_none (hstored : storedSlots ops = []) (hused : usedSlots ops = []) : TakesSlots d d ops :=
  ⟨rfl, ⟨[], (List.append_nil _).symm, hstored⟩, .of_none hused⟩

theorem TakesSlots.append {d'' : Draft} {ops' : List Op} (h : TakesSlots d d' ops) (h' : TakesSlots d' d'' ops') :
    TakesSlots d d'' (ops ++ ops') := by
  obtain ⟨new, hslots, hstored⟩ := h.slots
  obtain ⟨new', hslots', hstored'⟩ := h'.slots
  refine ⟨h'.code.trans h.code, ⟨new ++ new', ?_, ?_⟩, h.covered.append h'.covered⟩
  · rw [hslots', hslots, List.append_assoc]
  · rw [storedSlots_append, hstored, hstored', hslots, List.length_append, List.length_append, ← List.map_append,
      List.range'_append_1]

private theorem takes_callWithValues {boxed : Bool} {i : MethodId}
    (h : (ctx.callWithValues .current target boxed i).run.run d = (.ok ops, d')) : TakesSlots d d' ops := by
  obtain ⟨rfl, type, rfl⟩ := callWithValues_ok h
  obtain ⟨types, hop⟩ := ctx.callOp_eq i target
  rw [hop]
  refine ⟨rfl, ⟨[type], rfl, ?_⟩, fun slot hslot => .inl ?_⟩
  · rw [storedSlots_append, storedSlots_readOps]
    rfl
  · rw [usedSlots_append, usedSlots_readOps] at hslot
    rw [storedSlots_append, storedSlots_readOps]
    have hall : slot ∈ [d.body.nextSlot, d.body.nextSlot, d.body.nextSlot] := hslot
    exact List.mem_append_left _ (by simpa using hall)

theorem takes_invokerCall (h : (ctx.invokerCall .current target).run.run d = (.ok ops, d')) :
    TakesSlots d d' ops := by
  unfold invokerCall at h
  cases hinvoker : ctx.type.invoker with
  | simple i | arguments i c | senderAndArguments i c =>
    rw [hinvoker] at h
    obtain ⟨call, d₁, hcall, hpure⟩ := Steps.bind_ok.mp h
    obtain ⟨rfl, rfl⟩ := Steps.pure_ok.mp hpure
    obtain ⟨rfl, rfl⟩ := callInvoker_ok hcall
    obtain ⟨types, hop⟩ := ctx.callOp_eq i target
    rw [hop]
    exact takes_of_none rfl rfl
  | beforeAfter i | typedBeforeAfter i =>
    rw [hinvoker] at h
    exact takes_callWithValues h

theorem takes_handlerOps {targets : List Property}
    (h : (ctx.handlerOps targets).run.run d = (.ok ops, d')) : TakesSlots d d' ops := by
  induction targets generalizing d ops with
  | nil =>
    obtain ⟨rfl, rfl⟩ := Steps.pure_ok.mp h
    exact takes_of_none rfl rfl
  | cons target rest ih =>
    obtain ⟨call, d₁, hcall, hrest⟩ := Steps.bind_ok.mp h
    obtain ⟨more, d₂, hmore, hpure⟩ := Steps.bind_ok.mp hrest
    obtain ⟨rfl, rfl⟩ := Steps.pure_ok.mp hpure
    exact (takes_invokerCall hcall).append (ih hmore)

/-- All slots of a handler are its own. -/
theorem fills_writeHandler {serial : Nat}
    (h : ctx.writeHandler.run.run { body := {}, serial } = (.ok (), d')) :
    Fills 0 d'.body.slots.length (d'.body.code.map (·.op)) := by
  obtain ⟨ops, d₂, hops, hrest⟩ := Steps.bind_ok.mp h
  obtain ⟨code, d₁, hlabelled, happend⟩ := Steps.bind_ok.mp hrest
  have htakes := takes_handlerOps hops
  obtain ⟨rfl, rfl⟩ := labelled_ok hlabelled
  obtain rfl := (Prod.mk.inj happend).2
  obtain ⟨new, hslots, hstored⟩ := htakes.slots
  have hcode : (d₂.body.code ++ Instruction.drawFrom d₂.serial ops).map (·.op) = ops := by
    rw [htakes.code]
    exact Instruction.map_op_drawFrom d₂.serial ops
  have hlength : d₂.body.slots.length = new.length := by
    rw [hslots]
    rfl
  show Fills 0 d₂.body.slots.length ((d₂.body.code ++ Instruction.drawFrom d₂.serial ops).map (·.op))
  rw [hcode, hlength]
  exact ⟨List.Perm.of_eq hstored, fun i hi => (htakes.covered i hi).resolve_right id⟩

theorem fills_declareHandler {i : MethodId} {m : Module} (h : ctx.declareHandler = .ok (i, m)) :
    ∃ d body, m.method? i = some d ∧ d.body = some body
      ∧ Fills 0 body.slots.length (body.code.map (·.op)) := by
  obtain ⟨object, arguments, draft, -, -, hwrite, hdeclared⟩ := Weaving.declareHandler_ok h
  obtain ⟨rfl, rfl⟩ := Prod.mk.inj hdeclared
  obtain ⟨-, d, -, -, hbody, hmethods⟩ := Module.exists_declareOn
    { name := delegateName ctx.property.property.name
      params := [⟨"s", object⟩, ⟨"e", arguments⟩]
      body := some draft.body } ctx.type.type { ctx.module with serial := draft.serial }
  exact ⟨d, draft.body, (hmethods _).trans (if_pos rfl), hbody, fills_writeHandler hwrite⟩

end BlockContext

/-! ## The woven setter -/

namespace Layout

variable {ctx : BlockContext} {subscription : Option (Field × Event × MethodId)}
  {called : List String} {anchors : List Nat} {before : String → Bool → UInt16}
  (l : Layout ctx subscription called anchors before)

theorem stored_entry {q : Reading} (hq : q ∈ ctx.targetsReadings called ctx.property.targets) :
    before q.1.name q.2 ∈ storedSlots (l.prologue.map (·.op)) := by
  rw [l.prologue_ops, BlockContext.storedSlots_entryOps]
  obtain ⟨k, hk, hkey⟩ := List.mem_map.mp (mem_keys_firstReadings hq)
  obtain ⟨hname, hform⟩ := Prod.mk.inj hkey
  exact List.mem_map.mpr ⟨k, hk, by rw [hname, hform]⟩

theorem covered_subscription {entry : UInt16 → Prop} {accessor : Event → Option MethodId}
    {block : List Instruction}
    (h : subscription.elim (block = []) fun (field, event, handler) =>
      ∃ i, accessor event = some i ∧ ctx.Subscribes field handler i block) (c : Prop) [Decidable c] :
    Covered entry ((if c then block else []).map (·.op)) := by
  split
  · cases subscription with
    | none =>
      rw [show block = [] from h]
      exact .of_none rfl
    | some s =>
      obtain ⟨i, -, hsubscribes⟩ := h
      exact hsubscribes.covered
  · exact .of_none rfl

theorem covered_block (code : Stream) (p : Nat) :
    Covered (fun i => ∃ q ∈ ctx.targetsReadings called ctx.property.targets, i = before q.1.name q.2)
      ((l.block code p).map (·.op)) := by
  unfold block
  rw [List.map_append, List.map_append]
  refine ((covered_subscription l.unsubscribe_ops _).append (covered_subscription l.subscribe_ops _)).append ?_
  split
  · rename_i hp
    obtain ⟨after, -, hops⟩ := l.notification_ops p hp
    rw [hops]
    exact BlockContext.covered_changeOps
  · exact .of_none rfl

/-- The injected code loads only what it stores. -/
theorem used_stored (code : Stream) :
    ∀ i ∈ usedSlots ((l.injected code).map (·.op)), i ∈ storedSlots ((l.injected code).map (·.op)) := by
  have hcovered : Covered
      (fun i => ∃ q ∈ ctx.targetsReadings called ctx.property.targets, i = before q.1.name q.2)
      ((l.injected code).map (·.op)) := by
    unfold injected Stream.injected
    rw [List.map_append, l.prologue_ops, List.map_flatMap]
    exact (BlockContext.covered_entryOps _).append (.flatMap fun p _ => l.covered_block code p)
  intro i hi
  rcases hcovered i hi with hstored | ⟨q, hq, rfl⟩
  · exact hstored
  · unfold injected
    rw [List.map_append, storedSlots_append]
    exact List.mem_append_left _ (l.stored_entry hq)

end Layout

namespace Weaving

/-- **Slots apart.** A slot that is added to a body leaves the old ones alone, and is the one found under its
index exactly as long as there were fewer than 65536. When a setter is woven, its slots stay and new ones are put
behind them, and the injected code loads only what it stores. The slots that the injected code uses are new
ones, and no two values are stored into the same one, exactly if all slots of the woven setter can be addressed
or nothing was added. The same holds of the slots of its handler, which has no others. -/
theorem slots_apart {options : Options} {resolver : Resolver} {type : TypePlan} {plan : PropertyPlan}
    {w w' : Workpiece} {woven : WovenSetter} {method : MethodId} {body : Body}
    (hsetter : plan.property.setter = some method)
    (hbody : (w.module.method? method).bind (·.body) = some body)
    (hrun : (setter options resolver type plan).run.run w = (.ok woven, w')) :
    (∀ (b : Body) (t : TypeId),
      (∀ i : UInt16, i.toNat < b.slots.length → (b.addSlot t).slot? i = b.slot? i)
        ∧ (b.nextSlot.toNat = b.slots.length ↔ b.slots.length < 65536)
        ∧ (b.slots.length < 65536 → (b.addSlot t).slot? b.nextSlot = some t)
        ∧ (65536 ≤ b.slots.length → b.nextSlot.toNat < b.slots.length
          ∧ (b.addSlot t).slot? b.nextSlot = b.slot? b.nextSlot))
    ∧ ∃ m subscription before result,
      ∃ l : Layout ⟨options, resolver, m, type, plan⟩ subscription
        ((plan.targets.map (hookName ·.name)).filter (w.module.containsCallTo body.code))
        (plan.anchors body.code).1 before, ∃ new,
        (w'.module.method? method).bind (·.body) = some result ∧ result.code = l.weave body.code
          ∧ result.slots = body.slots ++ new
          ∧ (∀ i ∈ usedSlots ((l.injected body.code).map (·.op)),
            i ∈ storedSlots ((l.injected body.code).map (·.op)))
          ∧ (Apart body.slots.length new.length ((l.injected body.code).map (·.op))
            ↔ result.slots.length ≤ 65536 ∨ new = [])
          ∧ ∀ field event handler, subscription = some (field, event, handler) →
            ∃ d code, w'.module.method? handler = some d ∧ d.body = some code
              ∧ (Apart 0 code.slots.length (code.code.map (·.op)) ↔ code.slots.length ≤ 65536) := by
  refine ⟨Body.addSlot_apart, ?_⟩
  -- for the setter, the new slots are what the injected code fills;
  -- the handler starts without any slots
  obtain ⟨m, subscription, before, result, l, hsubscription, hresult, hmodule, hcode, -, new, hslots, hstored⟩ :=
    setter_stores hsetter hbody hrun
  have hfills : Fills body.slots.length new.length ((l.injected body.code).map (·.op)) :=
    ⟨hstored, l.used_stored body.code⟩
  refine ⟨m, subscription, before, result, l, new, hresult, hcode, hslots, hfills.used, ?_,
    fun field event handler hsome => ?_⟩
  · rw [hfills.apart_iff, hslots, List.length_append, List.length_eq_zero_iff]
  · obtain ⟨hdeclare, hkept⟩ := declared_of_subscription hsubscription hmodule hbody hsome
    obtain ⟨d, code, hd, hdbody, hown⟩ := BlockContext.fills_declareHandler hdeclare
    refine ⟨d, code, hkept.trans hd, hdbody, ?_⟩
    rw [hown.apart_iff]
    omega

/-- A setter with two stores and no slots of its own gets three. -/
theorem slots_apart_chain :
    Chain.woven.1 = .ok ⟨[5, 8], 2, some ⟨5⟩⟩
      ∧ (Chain.woven.2.module.method? ⟨1⟩).bind (·.body) = some Chain.result
      ∧ Chain.result.slots.length = 3
      ∧ Apart 0 3 ((Chain.result.code.extract 0 3 ++ (List.range 10).flatMap Chain.block).map (·.op)) := by
  have hbody : (Chain.module.method? ⟨1⟩).bind (·.body) = some Chain.setNext := rfl
  have hlength : Chain.result.slots.length = 3 := by decide +kernel
  refine ⟨by rw [Chain.woven_eq], Chain.result_eq, hlength, ?_⟩
  obtain ⟨m, subscription, before, result, l, new, hwoven, hcode, hslots, -, hapart, -⟩ :=
    (@slots_apart {} Chain.resolver Chain.type Chain.property ⟨Chain.module, {}⟩ Chain.woven.2 _ ⟨1⟩
      Chain.setNext rfl hbody Chain.woven_eq).2
  rw [Chain.result_eq] at hwoven
  obtain rfl : Chain.result = result := Option.some.inj hwoven
  have hnew : new.length = 3 := by
    rw [← hlength, hslots]
    rfl
  obtain ⟨hfront, hblock⟩ := Chain.parts_eq l hcode
  have hfit := hapart.mpr (.inl (by rw [hlength]; decide))
  rw [hnew, Layout.injected, hfront, hblock] at hfit
  exact hfit

/-! ## More slots than can be addressed -/

/-- The setter with that many slots of its own, which it does not use. -/
def wide (count : Nat) : Body := { Chain.setNext with slots := List.replicate count ⟨0⟩ }

/-- What weaving it does. -/
def wovenWide (count : Nat) : Except Error WovenSetter × Workpiece :=
  (setter {} Chain.resolver Chain.type Chain.property).run.run
    ⟨Chain.module.setBody ⟨1⟩ (some (wide count)), {}⟩

/-- Behind 65536 slots a new one gets the index of the first. Weaving a setter that has so many succeeds, and the
injected code stores into one of them. -/
theorem slots_meet :
    ((wide 65536).nextSlot = 0 ∧ ((wide 65536).addSlot ⟨1⟩).slot? 0 = some ⟨0⟩)
      ∧ ∃ w result, wovenWide 65536 = (.ok ⟨[5, 8], 2, some ⟨5⟩⟩, w)
        ∧ (w.module.method? ⟨1⟩).bind (·.body) = some result
        ∧ ∃ i ∈ result.code, i ∉ (wide 65536).code
          ∧ ∃ slot, i.op.storedSlot? = some slot ∧ slot.toNat < (wide 65536).slots.length := by
  have hlength : (wide 65536).slots.length = 65536 := List.length_replicate
  refine ⟨⟨?_, ?_⟩, ?_⟩
  · rw [Body.nextSlot, hlength]
    rfl
  · rw [Body.slot?_addSlot_old _ _ (by rw [hlength]; decide)]
    exact List.getElem?_replicate_of_lt (by decide)
  · have hresult : (wovenWide 65536).1 = .ok ⟨[5, 8], 2, some ⟨5⟩⟩ := by decide +kernel
    have hstores : (((wovenWide 65536).2.module.method? ⟨1⟩).bind (·.body)).any
        (fun result => result.code.any (·.op.storedSlot?.isSome)) = true := by decide +kernel
    have hnone : ∀ i ∈ (wide 65536).code, i.op.storedSlot? = none := by decide +kernel
    cases hrun : wovenWide 65536 with
    | mk outcome w =>
      rw [hrun] at hresult hstores
      obtain rfl : outcome = _ := hresult
      obtain ⟨result, hresult, hany⟩ := Option.any_eq_true _ _ |>.mp hstores
      obtain ⟨i, hi, hsome⟩ := List.any_eq_true.mp hany
      obtain ⟨slot, hslot⟩ := Option.isSome_iff_exists.mp hsome
      refine ⟨w, result, rfl, hresult, i, hi, fun hold => ?_, slot, hslot, ?_⟩
      · rw [hnone i hold] at hslot
        cases hslot
      · rw [hlength]
        exact slot.toNat_lt

end Weaving

end SetterLoom
