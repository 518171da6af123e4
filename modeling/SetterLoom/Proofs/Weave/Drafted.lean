import Mathlib.Data.List.Nodup
import SetterLoom.Proofs.Weave.Blocks
import SetterLoom.Proofs.Weave.Steps

/-!
# What the drafting of a block leaves

The code of a block is made in a draft, which gets slots and captures on the way. The draft's captures
are at all times the first readings of what was wanted so far, and its new slots are stored into once
each, by the code that reads the captures or by the code of the blocks.

* `Makes.append`: code made one behind the other.
* `makes_changeBlock`: what the code behind a store is, whatever was drafted before.
-/

namespace SetterLoom
set_option autoImplicit false

namespace Draft

/-- The slots of the captures are the ones that `before` gives. -/
def Agrees (d : Draft) (before : String → Bool → UInt16) : Prop :=
  ∀ c ∈ d.captures, before c.property c.boxed = c.slot

/-- Drafting keeps the captures, and neither edits the code nor labels any. -/
structure Grows (d d' : Draft) : Prop where
  captures : d.captures ⊆ d'.captures
  code : d'.body.code = d.body.code
  serial : d'.serial = d.serial

theorem Grows.refl (d : Draft) : d.Grows d := ⟨fun _ h => h, rfl, rfl⟩

theorem Grows.trans {d d' d'' : Draft} (h : d.Grows d') (h' : d'.Grows d'') : d.Grows d'' :=
  ⟨fun _ hc => h'.captures (h.captures hc), h'.code.trans h.code, h'.serial.trans h.serial⟩

theorem Agrees.of_grows {d d' : Draft} {before : String → Bool → UInt16} (h : d.Grows d')
    (hb : d'.Agrees before) : d.Agrees before :=
  fun c hc => hb c (h.captures hc)

theorem Agrees.of_capture? {d : Draft} {before : String → Bool → UInt16} {name : String}
    {boxed : Bool} {slot : UInt16} (hb : d.Agrees before) (h : d.capture? name boxed = some slot) :
    before name boxed = slot := by
  obtain ⟨c, hc, rfl⟩ := Option.map_eq_some_iff.mp h
  have hkey := List.find?_some hc
  rw [Bool.and_eq_true, beq_iff_eq, beq_iff_eq] at hkey
  rw [← hkey.1, ← hkey.2]
  exact hb c (List.mem_of_find?_eq_some hc)

theorem capture?_eq_none {d : Draft} {name : String} {boxed : Bool} :
    d.capture? name boxed = none ↔ (name, boxed) ∉ d.captures.map fun c => (c.property, c.boxed) := by
  unfold capture?
  rw [Option.map_eq_none_iff, List.find?_eq_none]
  simp only [Bool.and_eq_true, beq_iff_eq, List.mem_map, Prod.mk.injEq, not_exists, not_and]

theorem agrees_capture? {d : Draft}
    (h : (d.captures.map fun c => (c.property, c.boxed)).Nodup) :
    d.Agrees fun name boxed => (d.capture? name boxed).getD 0 := by
  intro c hc
  cases hfind : d.capture? c.property c.boxed with
  | none => exact absurd (List.mem_map.mpr ⟨c, hc, rfl⟩) (capture?_eq_none.mp hfind)
  | some slot =>
    obtain ⟨c', hc', rfl⟩ := Option.map_eq_some_iff.mp hfind
    have hkey := List.find?_some hc'
    rw [Bool.and_eq_true, beq_iff_eq, beq_iff_eq] at hkey
    have hsame := List.inj_on_of_nodup_map h (List.mem_of_find?_eq_some hc') hc (Prod.ext hkey.1 hkey.2)
    simp only [hfind, Option.getD_some, hsame]

end Draft

namespace BlockContext

/-- A draft of a body for which values were read and code was made. -/
structure Drafted (ctx : BlockContext) (body : Body) (readings : List Reading) (ops : List Op)
    (d : Draft) : Prop where
  captures : d.captures.map (fun c => (c.property, c.boxed))
    = (firstReadings readings).map fun r => (r.1.name, r.2)
  prologue : ∀ before, d.Agrees before → d.prologue = ctx.entryOps readings before
  slots : ∃ new, d.body.slots = body.slots ++ new ∧ (storedSlots (d.prologue ++ ops)).Perm
    ((List.range' body.slots.length new.length).map UInt16.ofNat)

/-- In any draft, the step makes code as specified and wants the given values for it. -/
def Makes (ctx : BlockContext) (step : Drafting (List Op)) (wanted : List Reading)
    (spec : (String → Bool → UInt16) → List Op → Prop) : Prop :=
  ∀ ⦃body readings ops d d' code⦄, Drafted ctx body readings ops d →
    step.run.run d = (.ok code, d') →
      Drafted ctx body (readings ++ wanted) (ops ++ code) d' ∧ d.Grows d'
        ∧ ∀ before, d'.Agrees before → spec before code

variable {ctx : BlockContext} {body : Body} {readings : List Reading} {ops : List Op} {d d' : Draft}

theorem drafted_start (ctx : BlockContext) (body : Body) (serial : Nat) :
    Drafted ctx body [] [] { body, serial } where
  captures := rfl
  prologue := fun _ _ => rfl
  slots := ⟨[], (List.append_nil _).symm, List.Perm.refl _⟩

/-! ## Reading a value -/

theorem readValue_ok {target : Property} {boxed : Bool} {code : List Op} {slot : UInt16}
    (h : (ctx.readValue target boxed).run.run d = (.ok (code, slot), d')) :
    slot = d.body.nextSlot ∧ code = ctx.readOps target boxed slot
      ∧ ∃ type, d' = { d with body := d.body.addSlot type } := by
  unfold readValue at h
  cases hget : target.getter with
  | none =>
    rw [hget] at h
    exact absurd h Steps.throw_not_ok
  | some getter =>
    simp only [hget] at h
    obtain ⟨t, d₁, ht, hrest⟩ := Steps.bind_ok.mp h
    obtain ⟨hlook, rfl⟩ : ctx.module.type? target.type = some t ∧ d₁ = d := by
      unfold targetType at ht
      split at ht
      · rename_i t' hlook
        obtain ⟨rfl, rfl⟩ := Steps.pure_ok.mp ht
        exact ⟨hlook, rfl⟩
      · exact absurd ht Steps.throw_not_ok
    -- with or without boxing, one slot is added and the value stored in it
    have hslot {type : TypeId} {boxing : List Op}
        (hadd : (do
            let slot ← Draft.addSlot type
            pure ([Op.ldarg 0, .callvirt getter] ++ boxing ++ [Op.stloc slot], slot)
              : Drafting (List Op × UInt16)).run.run d₁ = (.ok (code, slot), d')) :
        slot = d₁.body.nextSlot
          ∧ code = [Op.ldarg 0, .callvirt getter] ++ boxing ++ [Op.stloc slot]
          ∧ ∃ type, d' = { d₁ with body := d₁.body.addSlot type } := by
      obtain ⟨s, d₂, hs, hadd⟩ := Steps.bind_ok.mp hadd
      rw [Draft.addSlot_run, Prod.mk.injEq, Except.ok.injEq] at hs
      obtain ⟨rfl, rfl⟩ := hs
      obtain ⟨hcode, rfl⟩ := Steps.pure_ok.mp hadd
      obtain ⟨rfl, rfl⟩ := Prod.mk.inj hcode
      exact ⟨rfl, rfl, type, rfl⟩
    have hops : ctx.readOps target boxed slot = [Op.ldarg 0, .callvirt getter]
        ++ (if boxed && t.isValue then [Op.box target.type] else []) ++ [Op.stloc slot] := by
      simp only [readOps, hget, hlook, Option.any_some, Option.toList_some, List.map_cons,
        List.map_nil, List.singleton_append]
    rw [hops]
    cases boxed with
    | true =>
      obtain ⟨type, d₂, htype, hadd⟩ := Steps.bind_ok.mp hrest
      obtain ⟨-, rfl⟩ := Steps.liftExcept_ok.mp htype
      exact hslot hadd
    | false =>
      obtain ⟨type, d₂, htype, hadd⟩ := Steps.bind_ok.mp hrest
      obtain ⟨rfl, rfl⟩ := Steps.pure_ok.mp htype
      exact hslot hadd

private theorem slots_addSlot {new : List TypeId} {stored stored' : List UInt16} (type : TypeId)
    (hslots : d.body.slots = body.slots ++ new)
    (hstored : stored.Perm ((List.range' body.slots.length new.length).map UInt16.ofNat))
    (hperm : stored'.Perm (stored ++ [d.body.nextSlot])) :
    ∃ new', (d.body.addSlot type).slots = body.slots ++ new'
      ∧ stored'.Perm ((List.range' body.slots.length new'.length).map UInt16.ofNat) := by
  refine ⟨new ++ [type], ?_, ?_⟩
  · rw [Body.addSlot, hslots, List.append_assoc]
  · have hnext : d.body.nextSlot = UInt16.ofNat (body.slots.length + new.length) := by
      rw [Body.nextSlot, hslots, List.length_append]
    rw [List.length_append, List.length_singleton, List.range'_concat, List.map_append,
      Nat.one_mul, List.map_singleton, ← hnext]
    exact hperm.trans (hstored.append_right _)

theorem Drafted.addSlot (h : Drafted ctx body readings ops d) (type : TypeId) {code : List Op}
    (hcode : storedSlots code = [d.body.nextSlot]) :
    Drafted ctx body readings (ops ++ code) { d with body := d.body.addSlot type } := by
  obtain ⟨new, hslots, hstored⟩ := h.slots
  refine ⟨h.captures, h.prologue, slots_addSlot type hslots hstored ?_⟩
  simp only [storedSlots_append, hcode, List.append_assoc]
  exact List.Perm.refl _

theorem Drafted.addCapture (h : Drafted ctx body readings ops d) (type : TypeId)
    {target : Property} {boxed : Bool} (hnew : d.capture? target.name boxed = none) :
    Drafted ctx body (readings ++ [(target, boxed)]) ops
      { d with
        body := d.body.addSlot type
        captures := d.captures ++ [⟨target.name, boxed, d.body.nextSlot⟩]
        prologue := d.prologue ++ ctx.readOps target boxed d.body.nextSlot } := by
  have hfirst : firstReadings (readings ++ [(target, boxed)])
      = firstReadings readings ++ [(target, boxed)] := by
    rw [firstReadings_append, List.foldl_cons, List.foldl_nil]
    refine if_neg fun hany => Draft.capture?_eq_none.mp hnew ?_
    obtain ⟨k, hk, hkey⟩ := List.any_eq_true.mp hany
    rw [Bool.and_eq_true, beq_iff_eq, beq_iff_eq] at hkey
    rw [h.captures]
    exact List.mem_map.mpr ⟨k, hk, Prod.ext hkey.1 hkey.2⟩
  obtain ⟨new, hslots, hstored⟩ := h.slots
  refine ⟨?_, ?_, slots_addSlot type hslots hstored ?_⟩
  · rw [hfirst, List.map_append, List.map_append, h.captures]
    rfl
  · intro before hb
    have hold : d.Agrees before := fun c hc => hb c (List.mem_append_left _ hc)
    have hlast : before target.name boxed = d.body.nextSlot :=
      hb _ (List.mem_append_right _ List.mem_cons_self)
    show d.prologue ++ ctx.readOps target boxed d.body.nextSlot = _
    rw [entryOps, hfirst, List.flatMap_append, List.flatMap_singleton, hlast,
      h.prologue before hold, entryOps]
  · simp only [storedSlots_append, storedSlots_readOps, List.append_assoc]
    have hcomm : ∀ l : List UInt16, ([d.body.nextSlot] ++ l).Perm (l ++ [d.body.nextSlot]) :=
      fun _ => List.perm_append_comm
    exact (hcomm _).append_left _

/-- The slot of the value on entry is the capture's, whether it was captured before or not. -/
theorem beforeSlot_ok (h : Drafted ctx body readings ops d) {target : Property} {boxed : Bool}
    {after before : UInt16}
    (hrun : (ctx.beforeSlot .entry target boxed after).run.run d = (.ok before, d')) :
    Drafted ctx body (readings ++ [(target, boxed)]) ops d' ∧ d.Grows d'
      ∧ ∀ slots, d'.Agrees slots → slots target.name boxed = before := by
  unfold beforeSlot at hrun
  obtain ⟨_, _, hget, hrest⟩ := Steps.bind_ok.mp hrun
  obtain ⟨rfl, rfl⟩ := Steps.get_ok.mp hget
  split at hrest
  -- the value was captured before, so nothing is read once more
  · rename_i slot hslot
    obtain ⟨rfl, rfl⟩ := Steps.pure_ok.mp hrest
    refine ⟨⟨?_, ?_, h.slots⟩, .refl _, fun _ hs => hs.of_capture? hslot⟩
    all_goals
      have hknown : firstReadings (readings ++ [(target, boxed)]) = firstReadings readings := by
        rw [firstReadings_append]
        refine foldl_addReading_of_known fun r hr => ?_
        rw [List.mem_singleton.mp hr, ← h.captures]
        by_contra hnot
        rw [Draft.capture?_eq_none.mpr hnot] at hslot
        exact absurd hslot nofun
    · rw [hknown, h.captures]
    · intro slots hs
      rw [entryOps, hknown, h.prologue slots hs, entryOps]
  · rename_i hnone
    obtain ⟨⟨code, slot⟩, d₁, hread, hrest⟩ := Steps.bind_ok.mp hrest
    obtain ⟨rfl, rfl, type, rfl⟩ := readValue_ok hread
    obtain ⟨_, d₂, hadd, hpure⟩ := Steps.bind_ok.mp hrest
    obtain ⟨rfl, rfl⟩ := Steps.pure_ok.mp hpure
    obtain rfl : _ = d' := (Prod.mk.inj hadd).2
    refine ⟨h.addCapture type hnone, ⟨List.subset_append_left _ _, rfl, rfl⟩, fun slots hs => ?_⟩
    exact hs _ (List.mem_append_right _ List.mem_cons_self)

/-- Both values are read: the one after right here, the one before on entry. -/
theorem readBoth_ok (h : Drafted ctx body readings ops d) {target : Property} {boxed : Bool}
    {code : List Op} {before after : UInt16}
    (hrun : (ctx.readBoth .entry target boxed).run.run d = (.ok (code, before, after), d')) :
    code = ctx.readOps target boxed after
      ∧ Drafted ctx body (readings ++ [(target, boxed)]) (ops ++ code) d' ∧ d.Grows d'
      ∧ ∀ slots, d'.Agrees slots → slots target.name boxed = before := by
  unfold readBoth at hrun
  obtain ⟨⟨c, a⟩, d₁, hread, hrest⟩ := Steps.bind_ok.mp hrun
  obtain ⟨rfl, rfl, type, rfl⟩ := readValue_ok hread
  obtain ⟨b, d₂, hbefore, hpure⟩ := Steps.bind_ok.mp hrest
  obtain ⟨heq, rfl⟩ := Steps.pure_ok.mp hpure
  rw [Prod.mk.injEq, Prod.mk.injEq] at heq
  obtain ⟨rfl, rfl, rfl⟩ := heq
  obtain ⟨hdrafted, hgrows, hslot⟩ :=
    beforeSlot_ok (h.addSlot type (storedSlots_readOps ctx target boxed _)) hbefore
  exact ⟨rfl, hdrafted, ⟨hgrows.captures, hgrows.code, hgrows.serial⟩, hslot⟩

/-! ## Making code -/

theorem Drafted.append (h : Drafted ctx body readings ops d) {code : List Op}
    (hcode : storedSlots code = []) : Drafted ctx body readings (ops ++ code) d := by
  refine ⟨h.captures, h.prologue, ?_⟩
  have hsame : storedSlots (d.prologue ++ (ops ++ code)) = storedSlots (d.prologue ++ ops) := by
    rw [← List.append_assoc, storedSlots_append, hcode, List.append_nil]
  rw [hsame]
  exact h.slots

theorem makes_pure {code : List Op} {spec : (String → Bool → UInt16) → List Op → Prop}
    (hcode : storedSlots code = []) (hspec : ∀ before, spec before code) :
    Makes ctx (pure code) [] spec := by
  intro body readings ops d d' made h hrun
  obtain ⟨rfl, rfl⟩ := Steps.pure_ok.mp hrun
  rw [List.append_nil]
  exact ⟨h.append hcode, .refl d', fun before _ => hspec before⟩

theorem Makes.append {step step' : Drafting (List Op)} {wanted wanted' : List Reading}
    {spec spec' : (String → Bool → UInt16) → List Op → Prop}
    (h : Makes ctx step wanted spec) (h' : Makes ctx step' wanted' spec') :
    Makes ctx (do let a ← step; let b ← step'; pure (a ++ b)) (wanted ++ wanted')
      fun before code => ∃ a b, code = a ++ b ∧ spec before a ∧ spec' before b := by
  intro body readings ops d d' code hd hrun
  obtain ⟨a, d₁, ha, hrest⟩ := Steps.bind_ok.mp hrun
  obtain ⟨b, d₂, hb, hpure⟩ := Steps.bind_ok.mp hrest
  obtain ⟨rfl, rfl⟩ := Steps.pure_ok.mp hpure
  obtain ⟨hd₁, hgrows, hspec⟩ := h hd ha
  obtain ⟨hd₂, hgrows', hspec'⟩ := h' hd₁ hb
  rw [← List.append_assoc, ← List.append_assoc]
  refine ⟨hd₂, hgrows.trans hgrows', fun before hs => ⟨a, b, rfl, ?_, hspec' before hs⟩⟩
  exact hspec before (hs.of_grows hgrows')

theorem callInvoker_ok {i : MethodId} {target : Property} {op : Op}
    (h : (ctx.callInvoker i target).run.run d = (.ok op, d')) :
    op = ctx.callOp i target ∧ d' = d := by
  unfold callInvoker at h
  unfold callOp
  split at h
  · rename_i hgeneric
    obtain ⟨t, d₁, ht, hpure⟩ := Steps.bind_ok.mp h
    obtain ⟨rfl, rfl⟩ := Steps.pure_ok.mp hpure
    rw [if_pos hgeneric]
    refine ⟨rfl, ?_⟩
    unfold targetType at ht
    split at ht
    · exact (Steps.pure_ok.mp ht).2
    · exact absurd ht Steps.throw_not_ok
  · rename_i hplain
    rw [if_neg hplain]
    exact Steps.pure_ok.mp h

@[simp] theorem storedSlots_callOp (ctx : BlockContext) (i : MethodId) (target : Property) :
    storedSlots [ctx.callOp i target] = [] := by
  unfold callOp
  split <;> rfl

theorem makes_hookCall (ctx : BlockContext) (target : Property) (hook : ChangeHook) :
    Makes ctx (ctx.hookCall target hook) ((hookForms hook).map (target, ·))
      fun before code => ∃ after, code = ctx.hookOps target hook before after := by
  cases hook with
  | noArguments i => exact makes_pure rfl fun _ => ⟨0, rfl⟩
  | beforeAfter i =>
    intro body readings ops d d' made h hrun
    obtain ⟨⟨code, before, after⟩, d₁, hread, hpure⟩ := Steps.bind_ok.mp hrun
    obtain ⟨rfl, rfl⟩ := Steps.pure_ok.mp hpure
    obtain ⟨rfl, hd, hgrows, hslot⟩ := readBoth_ok h hread
    rw [← List.append_assoc]
    refine ⟨hd.append rfl, hgrows, fun slots hs => ⟨after, ?_⟩⟩
    rw [← hslot slots hs]
    rfl

private theorem makes_callWithValues {target : Property} {boxed : Bool} {i : MethodId} :
    Makes ctx (ctx.callWithValues .entry target boxed i) [(target, boxed)]
      fun before code => ∃ after, code = ctx.readOps target boxed after
        ++ [Op.ldarg 0, .ldstr target.name, .ldloc (before target.name boxed), .ldloc after]
        ++ [ctx.callOp i target] := by
  intro body readings ops d d' made h hrun
  obtain ⟨⟨code, before, after⟩, d₁, hread, hrest⟩ := Steps.bind_ok.mp hrun
  obtain ⟨call, d₂, hcall, hpure⟩ := Steps.bind_ok.mp hrest
  obtain ⟨rfl, rfl⟩ := Steps.pure_ok.mp hpure
  obtain ⟨rfl, rfl⟩ := callInvoker_ok hcall
  obtain ⟨rfl, hd, hgrows, hslot⟩ := readBoth_ok h hread
  have hstored : storedSlots
      ([Op.ldarg 0, .ldstr target.name, .ldloc before, .ldloc after] ++ [ctx.callOp i target])
        = [] := by
    rw [storedSlots_append, storedSlots_callOp]
    rfl
  rw [← List.append_assoc]
  refine ⟨hd.append hstored, hgrows, fun slots hs => ⟨after, ?_⟩⟩
  rw [hslot slots hs, List.append_assoc]
  rfl

private theorem makes_call {target : Property} {i : MethodId} (arguments : List Op)
    (harguments : storedSlots arguments = []) :
    Makes ctx (do let call ← ctx.callInvoker i target; pure (arguments ++ [call])) []
      fun _ code => code = arguments ++ [ctx.callOp i target] := by
  intro body readings ops d d' made h hrun
  obtain ⟨call, d₁, hcall, hpure⟩ := Steps.bind_ok.mp hrun
  obtain ⟨rfl, rfl⟩ := Steps.pure_ok.mp hpure
  obtain ⟨rfl, rfl⟩ := callInvoker_ok hcall
  rw [List.append_nil]
  refine ⟨h.append ?_, .refl _, fun _ _ => rfl⟩
  rw [storedSlots_append, harguments, storedSlots_callOp]
  rfl

theorem makes_invokerCall (ctx : BlockContext) (target : Property) :
    Makes ctx (ctx.invokerCall .entry target) ((invokerForms ctx.type.invoker).map (target, ·))
      fun before code => ∃ after, code = ctx.announceOps target before after := by
  unfold invokerCall announceOps
  cases ctx.type.invoker with
  | simple i =>
    intro body readings ops d d' made h hrun
    obtain ⟨hd, hgrows, hcode⟩ :=
      makes_call [.ldarg 0, .ldstr target.name] rfl h hrun
    exact ⟨hd, hgrows, fun before hs => ⟨0, hcode before hs⟩⟩
  | arguments i c =>
    intro body readings ops d d' made h hrun
    obtain ⟨hd, hgrows, hcode⟩ :=
      makes_call [.ldarg 0, .ldstr target.name, .newobj c] rfl h hrun
    exact ⟨hd, hgrows, fun before hs => ⟨0, hcode before hs⟩⟩
  | senderAndArguments i c =>
    intro body readings ops d d' made h hrun
    obtain ⟨hd, hgrows, hcode⟩ :=
      makes_call [.ldarg 0, .ldarg 0, .ldstr target.name, .newobj c] rfl h hrun
    exact ⟨hd, hgrows, fun before hs => ⟨0, hcode before hs⟩⟩
  | beforeAfter i => exact makes_callWithValues
  | typedBeforeAfter i => exact makes_callWithValues

private theorem targetBlock_eq (ctx : BlockContext) (called : List String) (target : Property) :
    ctx.targetBlock called target = (do
      let hook ← (ctx.hookFor? called target).elim (pure []) (ctx.hookCall target)
      if ctx.property.announces target.name then return hook
      let call ← ctx.invokerCall .entry target
      Draft.countCall
      return hook ++ call) := by
  unfold targetBlock
  cases ctx.hookFor? called target <;> rfl

theorem makes_targetBlock (ctx : BlockContext) (called : List String) (target : Property) :
    Makes ctx (ctx.targetBlock called target) ((ctx.targetForms called target).map (target, ·))
      fun before code => ∃ after, code = ctx.targetOps called before target after := by
  have hhook : Makes ctx
      ((ctx.hookFor? called target).elim (pure []) (ctx.hookCall target))
      (((ctx.hookFor? called target).elim [] hookForms).map (target, ·))
      fun before code => ∃ after,
        code = (ctx.hookFor? called target).elim [] (ctx.hookOps target · before after) := by
    cases ctx.hookFor? called target with
    | none => exact makes_pure rfl fun _ => ⟨0, rfl⟩
    | some hook => exact makes_hookCall ctx target hook
  intro body readings ops d d' made h hrun
  rw [targetBlock_eq] at hrun
  obtain ⟨hook, d₁, hh, hrest⟩ := Steps.bind_ok.mp hrun
  obtain ⟨hd₁, hgrows₁, hspec₁⟩ := hhook h hh
  unfold targetForms targetOps
  split at hrest
  · rename_i hannounced
    obtain ⟨rfl, rfl⟩ := Steps.pure_ok.mp hrest
    rw [if_pos hannounced]
    simp only [List.append_nil]
    refine ⟨hd₁, hgrows₁, fun before hs => ?_⟩
    obtain ⟨after, hafter⟩ := hspec₁ before hs
    exact ⟨⟨after, 0⟩, by rw [if_pos hannounced, List.append_nil, hafter]⟩
  · rename_i hnot
    obtain ⟨call, d₂, hcall, hrest⟩ := Steps.bind_ok.mp hrest
    obtain ⟨_, d₃, hcount, hpure⟩ := Steps.bind_ok.mp hrest
    obtain ⟨rfl, rfl⟩ := Steps.pure_ok.mp hpure
    obtain rfl : _ = d' := (Prod.mk.inj hcount).2
    obtain ⟨hd₂, hgrows₂, hspec₂⟩ := makes_invokerCall ctx target hd₁ hcall
    rw [if_neg hnot, List.map_append, ← List.append_assoc, ← List.append_assoc]
    refine ⟨⟨hd₂.captures, hd₂.prologue, hd₂.slots⟩, ?_, fun before hs => ?_⟩
    · exact hgrows₁.trans ⟨hgrows₂.captures, hgrows₂.code, hgrows₂.serial⟩
    · obtain ⟨hookSlot, hhookSlot⟩ := hspec₁ before (Draft.Agrees.of_grows hgrows₂ hs)
      obtain ⟨callSlot, hcallSlot⟩ := hspec₂ before hs
      exact ⟨⟨hookSlot, callSlot⟩, by rw [if_neg hnot, hhookSlot, hcallSlot]⟩

theorem makes_targetBlocks (ctx : BlockContext) (called : List String) (targets : List Property) :
    Makes ctx (ctx.targetBlocks called targets) (ctx.targetsReadings called targets)
      fun before code => ∃ after, after.length = targets.length
        ∧ code = ctx.targetsOps called before targets after := by
  induction targets with
  | nil => exact makes_pure rfl fun _ => ⟨[], rfl, rfl⟩
  | cons target rest ih =>
    intro body readings ops d d' made h hrun
    obtain ⟨hd, hgrows, hspec⟩ := (makes_targetBlock ctx called target).append ih h hrun
    refine ⟨hd, hgrows, fun before hs => ?_⟩
    obtain ⟨_, _, rfl, ⟨after, rfl⟩, afters, hlen, rfl⟩ := hspec before hs
    exact ⟨after :: afters, by rw [List.length_cons, List.length_cons, hlen], rfl⟩

@[simp] theorem storedSlots_dirtyFlagOps (ctx : BlockContext) :
    storedSlots ctx.dirtyFlagOps = [] := by
  unfold dirtyFlagOps
  split <;> rfl

theorem makes_changeBlock (ctx : BlockContext) (called : List String) :
    Makes ctx (ctx.changeBlock called) (ctx.targetsReadings called ctx.property.targets)
      fun before code => ∃ after, after.length = ctx.property.targets.length
        ∧ code = ctx.changeOps called before after := by
  intro body readings ops d d' made h hrun
  obtain ⟨code, d₁, hcode, hpure⟩ := Steps.bind_ok.mp hrun
  obtain ⟨rfl, rfl⟩ := Steps.pure_ok.mp hpure
  have hflag := h.append (storedSlots_dirtyFlagOps ctx)
  obtain ⟨hd, hgrows, hspec⟩ := makes_targetBlocks ctx called _ hflag hcode
  rw [← List.append_assoc]
  refine ⟨hd, hgrows, fun before hs => ?_⟩
  obtain ⟨after, hlen, rfl⟩ := hspec before hs
  exact ⟨after, hlen, rfl⟩

end BlockContext

end SetterLoom
