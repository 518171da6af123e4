import SetterLoom.Proofs.Weave.Followed

/-!
# Values that are not objects

The comparison in a subscription gets the value of the field as an object, boxed if its type is a value
type. The accessor is called on the value as it is. So a box is never null and the accessor is always called,
and where the machine answers for it there is no receiver.

* `accessor_without_receiver`: an accessor called on a value that is no object.
* `unboxed_value_fails`: no woven setter returns that comes to such a value.
-/

namespace SetterLoom
set_option autoImplicit false

/-- The machine answers for the accessor. -/
structure Method.AnsweredAsAccessor (d : Method) (m : Module) (hooks : HookTable) : Prop where
  noBody : d.body = none
  hook : ∃ h, hooks.find? (⟨m, d⟩ : Site).callName = some h
    ∧ (h.action = .runtime .addHandler ∨ h.action = .runtime .removeHandler)

namespace Site

variable {c : Site} {f g h : Frame} {s t u : Machine} {v x : Value} {bound : Nat} {i : MethodId}
  {d : Method}

theorem fieldValue_empty (m : Module) (d : Method) (field : Field) :
    (⟨m, d⟩ : Site).fieldValue .empty field = m.defaultOf field.type := rfl

/-- A call of an accessor on a value that is no object fails. -/
theorem accessor_without_receiver (hd : c.module.method? i = some d)
    (hanswered : d.AnsweredAsAccessor c.module s.hooks) (hv : v.ref? = none)
    (arguments : List Value) :
    (c.callOn (Action.invokeAt c.module bound) .callvirt i d v arguments).run.run s ≠ (.ok x, t) := by
  have hcall : ∀ v : Value, v.ref? = none →
      (Action.invokeAt c.module bound i (some v) arguments).run.run s ≠ (.ok x, t) := by
    intro v hv hrun
    cases bound with
    | zero => cases (Prod.mk.inj hrun).1
    | succ bound =>
      obtain ⟨hook, hfind, haction⟩ := hanswered.hook
      have hfind' : (s.entered ⟨c.module, d⟩ i).hooks.find? (⟨c.module, d⟩ : Site).callName
        = some hook := hfind
      have hget : (get : Action Machine).run.run (s.entered ⟨c.module, d⟩ i)
        = (.ok (s.entered ⟨c.module, d⟩ i), s.entered ⟨c.module, d⟩ i) := rfl
      have hreceiver : Action.receiver d.name (some v) = Action.fault (.memberWithoutReceiver d.name) := by
        unfold Action.receiver
        rw [Option.bind_some, hv]
      have hanswer : ∃ e, ((⟨c.module, d⟩ : Site).answer (Action.invokeAt c.module bound) (some v)
          arguments).run.run (s.entered ⟨c.module, d⟩ i) = (.error e, s.entered ⟨c.module, d⟩ i) := by
        unfold Site.answer
        rw [Action.bind_run, hget]
        dsimp only
        rw [hfind']
        unfold Site.askHook
        rcases haction with haction | haction
        · simp only [haction, hanswered.noBody, Option.isSome_none, Bool.false_eq_true, if_false,
            Action.answerFor, Action.addHandler, Action.handlerArguments, hreceiver]
          rw [Likeness.tryCatch_run]
          exact ⟨_, rfl⟩
        · simp only [haction, hanswered.noBody, Option.isSome_none, Bool.false_eq_true, if_false,
            Action.answerFor, Action.removeHandler, Action.handlerArguments, hreceiver]
          rw [Likeness.tryCatch_run]
          exact ⟨_, rfl⟩
      obtain ⟨e, hanswer⟩ := hanswer
      rw [Action.invokeAt, Action.invokeWith_run hd, Action.bind_run, hanswer] at hrun
      cases (Prod.mk.inj hrun.2).1
  -- only null fails for its own reason; any other value without a
  -- reference gets to the accessor, which needs one
  cases v with
  | ref r => cases hv
  | null =>
    intro hrun
    cases (Prod.mk.inj hrun).1
  | void => exact hcall .void rfl
  | int n => exact hcall (.int n) rfl
  | struct t => exact hcall (.struct t) rfl
  | address r k => exact hcall (.address r k) rfl
  | function k => exact hcall (.function k) rfl

end Site

namespace Layout

section Front

variable {ctx : BlockContext} {subscription : Option (Field × Event × MethodId)}
  {called : List String} {anchors : List Nat} {before : String → Bool → UInt16}
  (l : Layout ctx subscription called anchors before) {code : Stream} {a p : Nat}

theorem start_front (hanchored : Anchored subscription anchors code) (hhead : anchors.head? = some a)
    (hlt : BlockContext.storePosition code a < a) (hp : p ≤ BlockContext.storePosition code a) :
    l.start code p = l.prologue.length + p := by
  induction p with
  | zero => rfl
  | succ p ih =>
    rw [start_succ, place_eq, ih (by omega), l.block_before hanchored hhead (by omega) (by omega)]
    rfl

theorem getElem?_front (hanchored : Anchored subscription anchors code) (hhead : anchors.head? = some a)
    (hlt : BlockContext.storePosition code a < a) (hp : p < BlockContext.storePosition code a) :
    (l.weave code)[l.prologue.length + p]? = code[p]? := by
  have hle := hanchored.inside a (List.mem_of_head? hhead)
  have hplace := l.place_eq code p
  rw [l.block_before hanchored hhead (by omega) (by omega), l.start_front hanchored hhead hlt (Nat.le_of_lt hp)] at hplace
  have hsame := l.getElem?_place (show p ≤ code.length by omega)
  rwa [hplace] at hsame

end Front

variable {ctx : BlockContext} {field : Field} {handler accessor : MethodId}
  {m : Module} {d : Method} {bound : Nat} {f : Frame} {s z : Machine} {r : HeapRef}
  {type : Token} {fields : TokenMap Value} {v : Value} {handlerType : Token}
  {comparer handles accesses : Method} {code : Stream} {x : Nat} {block : List Instruction}

/-- No run returns that comes to a subscription of a value that is no object, if the type of the field is
a value type. -/
theorem not_ends_unboxed (P : ctx.Parts field handler accessor block) (hholds : code.Holds x block)
    (htypes : m.types = ctx.module.types)
    (hvalue : (ctx.module.type? field.type).any (·.isValue) = true)
    (hsubscribes : m.Subscribes s.hooks P.equals P.handlerConstructor handler accessor comparer handles
      accesses handlerType)
    (hanswered : accesses.AnsweredAsAccessor m s.hooks)
    (hthis : f.arguments[0]? = some (.ref r)) (hr : s.heap.get? r = some (.object type fields))
    (hv : ((⟨m, d⟩ : Site).fieldValue fields field).ref? = none) :
    ¬ (⟨m, d⟩ : Site).Ends (Action.invokeAt m bound) code Site.idle x f s v z := by
  intro hends
  let c : Site := ⟨m, d⟩
  obtain ⟨t, ht, hisValue⟩ : ∃ t, m.type? field.type = some t ∧ t.isValue = true := by
    obtain ⟨t, ht, hisValue⟩ := Option.any_eq_true _ _ |>.mp hvalue
    exact ⟨t, (Module.type?_of_types htypes field.type).trans ht, hisValue⟩
  rw [P.block_eq] at hholds
  obtain ⟨g, u, hruns, hbranch⟩ := hends.runs hholds.left.left fun i hi => (P.working_test hi).1
  rw [P.test_ops] at hruns
  unfold BlockContext.testOps at hruns
  simp only [hvalue, if_true] at hruns
  have hloaded := Site.runs_field hthis hr hruns
  have hboxed := ((Site.runs_cons_of_step (Site.step_box ht hisValue)).mp hloaded).2
  have hcompared := Site.runs_compare
    (s := { (s.spent 2).spent 1 with
      heap := s.heap.push (.boxed t.token (c.fieldValue fields field)) })
    hsubscribes.compares hboxed
  obtain ⟨rfl, rfl⟩ := Site.runs_nil.mp hcompared
  have hbehind := hholds.left.right
  -- the box is not null, so the branch is not taken
  have hway : ∀ {i way s y}, code[x + P.test.length]? = some i →
      c.Does (Action.invokeAt m bound) i.op (f.push (.int 0)) s way y →
        y = s.spent 1 ∧ way = .next f := by
    intro i way s y hi hdoes
    obtain rfl := Option.some.inj (hbehind.head.symm.trans hi)
    rw [P.branch_op] at hdoes
    exact Site.does_brtrue hdoes
  cases hbranch with
  | done hi hdoes => cases (hway hi hdoes).2
  | jump hi hdoes => cases (hway hi hdoes).2
  | next hi hdoes hact hrest =>
    obtain ⟨rfl, hnext⟩ := hway hi hdoes
    cases hnext
    obtain ⟨rfl, rfl⟩ := hact
    obtain ⟨k, y, hinner, -⟩ := hrest.runs hbehind.tail fun i hi => (P.working_inner hi).1
    rw [P.inner_ops] at hinner
    have hr' : (s.heap.push (.boxed t.token (c.fieldValue fields field))).get? r
        = some (.object type fields) := by
      rw [Heap.get?_push_old _ _ (Heap.get?_eq_some hr).2, hr]
    obtain ⟨-, x, hcall⟩ := Site.runs_access hsubscribes.makes hsubscribes.handler
      hsubscribes.accessor hsubscribes.shape hthis hr' hinner
    exact Site.accessor_without_receiver hsubscribes.accessor hanswered hv _ hcall

end Layout

namespace Weaving

variable {options : Options} {resolver : Resolver} {type : TypePlan} {plan : PropertyPlan}
  {w w' : Workpiece} {hooks : HookTable}

/-- A woven setter of a property of a value type does not return from a run that comes to the subscription
in front of its first store while the field holds a value that is no object. -/
theorem unboxed_value_fails (F : Following options resolver type plan w w' hooks)
    (hvalue : (F.declared.type? F.field.type).any (·.isValue) = true)
    (hanswered : F.removes.AnsweredAsAccessor w'.module hooks) :
    ∃ called before result a, ∃ l : Layout ⟨options, resolver, F.declared, type, plan⟩
        (some (F.field, F.event, F.handler)) called (plan.anchors F.body.code).1 before,
      F.Placed l result a
        ∧ ∀ (bound : Nat) (f g : Frame) (s y : Machine) (r : HeapRef) (t : Token)
            (fields fields' : TokenMap Value),
          f.arguments[0]? = some (.ref r) → s.heap.get? r = some (.object t fields) →
          s.hooks = hooks →
          (⟨w'.module, { F.method with body := some result }⟩ : Site).Reaches
            (Action.invokeAt w'.module bound) result.code 0 f s
            (l.start F.body.code (BlockContext.storePosition F.body.code a)) g y →
          y.heap.get? r = some (.object t fields') →
          ((⟨w'.module, { F.method with body := some result }⟩ : Site).fieldValue fields'
            F.field).ref? = none →
          ∀ v z, ¬ (⟨w'.module, { F.method with body := some result }⟩ : Site).Ends
            (Action.invokeAt w'.module bound) result.code Site.idle 0 f s v z := by
  obtain ⟨called, before, result, a, l, p⟩ := F.placed
  refine ⟨called, before, result, a, l, p, ?_⟩
  intro bound f g s y r t fields fields' hthis hr hhooks hreach hr' hv v z hends
  obtain ⟨add, remove, -, hremove, -, ⟨R⟩⟩ := l.subscription_parts
  obtain rfl := Option.some.inj (hremove.symm.trans F.remove_eq)
  have hR := Except.ok.inj (R.equals_eq.symm.trans F.equals_eq)
  have hR' := Except.ok.inj (R.constructor_eq.symm.trans F.constructor_eq)
  obtain ⟨hpos, hle⟩ := Layout.head_pos p.stands.anchored p.head
  have hlt : BlockContext.storePosition F.body.code a < a := Layout.storePosition_lt hpos
  have hholds := l.holds_block
    (show BlockContext.storePosition F.body.code a ≤ F.body.code.length by omega)
  rw [l.block_store p.stands.anchored p.head hpos, ← p.stands.code] at hholds
  obtain ⟨hthis', hhooks', -⟩ := hreach.receiver hthis hr
  exact Layout.not_ends_unboxed R hholds p.stands.types.symm hvalue
    (by rw [hhooks', hhooks, hR, hR']; exact F.unsubscribes) (by rw [hhooks', hhooks]; exact hanswered)
    hthis' hr' hv (hends.after hreach)

end Weaving

/-! ## A shop with a price -/

namespace Shop

def price : Field := ⟨⟨1⟩, "<Price>k__BackingField", .privateBit, ⟨8⟩⟩

def property : Property := ⟨⟨20⟩, "Price", ⟨8⟩, some ⟨0⟩, some ⟨1⟩, []⟩

def setPrice : List Op := [.ldarg 0, .ldarg 1, .stfld price, .ret]

/-- A module with a shop that has a price, which announces its changes and is not an object. -/
def module : Module where
  name := "Shop"
  types := (Sapling.module []).types.set! 1 (some ⟨⟨11⟩, "", "Shop", .classType, false, none, [⟨2⟩, ⟨3⟩],
    [price, Sapling.handlers], [⟨0⟩, ⟨1⟩, ⟨4⟩], [property], [], []⟩)
    |>.push (some ⟨⟨18⟩, "", "Price", .valueType, false, none, [⟨2⟩], [], [⟨2⟩, ⟨3⟩], [],
      [Sapling.changed], []⟩)
  methods := (Sapling.module []).methods.set! 0 (some (Sapling.method 30 "get_Price" 0 ⟨1⟩
      (some (Sapling.body [.ldarg 0, .ldfld price, .ret])) (some ⟨8⟩)))
    |>.set! 1 (some (Sapling.method 31 "set_Price" 1 ⟨1⟩ (some (Sapling.body setPrice))))
    |>.set! 2 (some (Sapling.method 32 (Surface.adder Surface.changedEvent) 1 ⟨8⟩))
    |>.set! 3 (some (Sapling.method 33 (Surface.remover Surface.changedEvent) 1 ⟨8⟩))
  registry := (Sapling.module []).registry.insert ⟨18⟩ "Price" ⟨8⟩

def plan : PropertyPlan := { property, backing := some price }

def woven : Except Error WovenSetter × Workpiece :=
  (Weaving.setter {} .standard Sapling.type plan).run.run ⟨module, {}⟩

/-- A machine with one shop. -/
def machine : Machine :=
  { Machine.withRuntimeMembers with heap := { objects := #[.object ⟨11⟩ .empty] } }

/-- The handler of the price in the woven module. -/
def handles : Method := (woven.2.module.method? ⟨8⟩).get (by decide +kernel)

theorem woven_eq : woven = (.ok ⟨[3], 1, some ⟨8⟩⟩, woven.2) := by
  have hresult : woven.1 = .ok ⟨[3], 1, some ⟨8⟩⟩ := by decide +kernel
  rw [← hresult]

theorem subscribes {accessor : MethodId} {accesses : Method}
    (haccessor : woven.2.module.method? accessor = some accesses) (hshape : accesses.Accesses) :
    woven.2.module.Subscribes machine.hooks ⟨5⟩ ⟨6⟩ ⟨8⟩ accessor Sapling.comparer handles accesses
      ⟨15⟩ where
  compares := ⟨by decide +kernel, rfl, by decide, rfl, rfl, RuntimeMember.objectEquals.hook,
    by decide +kernel, rfl⟩
  makes := ⟨Sapling.method 36 Surface.constructor 2 ⟨5⟩, ⟨5⟩, ⟨⟨15⟩, "System.ComponentModel",
    "PropertyChangedEventHandler", .classType, true, some ⟨4⟩, [], [], [⟨6⟩], [], [], []⟩,
    by decide +kernel, rfl, rfl, by decide +kernel, by decide +kernel, rfl⟩
  handler := (Option.some_get _).symm
  accessor := haccessor
  shape := hshape

end Shop

namespace Weaving

open Shop in
/-- The setter of the price is woven to follow it. -/
def followingPrice : Following {} .standard Sapling.type plan ⟨module, {}⟩ woven.2 machine.hooks where
  woven := ⟨[3], 1, some ⟨8⟩⟩
  setter := ⟨1⟩
  method := Sapling.method 31 "set_Price" 1 ⟨1⟩ (some (Sapling.body setPrice))
  body := Sapling.body setPrice
  field := price
  event := Sapling.changed
  add := ⟨2⟩
  remove := ⟨3⟩
  handler := ⟨8⟩
  declared := (⟨{}, .standard, module, Sapling.type, plan⟩ : BlockContext).declared
  equals := ⟨5⟩
  handlerConstructor := ⟨6⟩
  comparer := Sapling.comparer
  handles
  adds := Sapling.method 32 (Surface.adder Surface.changedEvent) 1 ⟨8⟩
  removes := Sapling.method 33 (Surface.remover Surface.changedEvent) 1 ⟨8⟩
  handlerType := ⟨15⟩
  run := woven_eq
  setter_eq := rfl
  method_eq := rfl
  body_eq := rfl
  settled := Stream.settled_of_no_target _ (by decide +kernel)
  fresh := Sapling.fresh_body setPrice _
  followed := by decide +kernel
  declare := BlockContext.declareHandler_eq (by decide +kernel)
  add_eq := Sapling.changed_add
  remove_eq := Sapling.changed_remove
  equals_eq := by decide +kernel
  constructor_eq := by decide +kernel
  subscribes := subscribes (by decide +kernel) ⟨by decide, rfl, rfl⟩
  unsubscribes := subscribes (by decide +kernel) ⟨by decide, rfl, rfl⟩

open Shop in
/-- The woven setter of the price does not return for a new shop. -/
theorem unboxed_value_fails_price :
    ∃ result, woven.2.module.method? ⟨1⟩
        = some { Sapling.method 31 "set_Price" 1 ⟨1⟩ (some (Sapling.body setPrice)) with body := some result }
      ∧ ∀ bound v z, ¬ (⟨woven.2.module, { Sapling.method 31 "set_Price" 1 ⟨1⟩
            (some (Sapling.body setPrice)) with body := some result }⟩ : Site).Ends
          (Action.invokeAt woven.2.module bound) result.code Site.idle 0
          ⟨[.ref ⟨1⟩, .struct ⟨18⟩], [], []⟩ machine v z := by
  have hvalue : (followingPrice.declared.type? followingPrice.field.type).any (·.isValue) = true := by
    decide +kernel
  have hanswered : followingPrice.removes.AnsweredAsAccessor woven.2.module machine.hooks :=
    ⟨rfl, RuntimeMember.removeHandler.hook, by decide +kernel, .inr rfl⟩
  obtain ⟨called, before, result, a, l, p, hfails⟩ :=
    unboxed_value_fails followingPrice hvalue hanswered
  have hanchors : (plan.anchors (Sapling.body setPrice).code).1 = [3] := by decide +kernel
  obtain rfl : a = 3 := by
    have hhead := p.head
    rw [show (plan.anchors followingPrice.body.code).1 = [3] from hanchors] at hhead
    exact (Option.some.inj hhead).symm
  have hhook : ∀ t ∈ plan.targets, (⟨{}, .standard, followingPrice.declared, Sapling.type,
      plan⟩ : BlockContext).hookFor? called t = none := by
    have hnone : ∀ t ∈ plan.targets, Sapling.type.hook? followingPrice.declared (hookName t.name) = none := by
      decide +kernel
    intro t ht
    unfold BlockContext.hookFor?
    split
    · exact hnone t ht
    · rfl
  have hprologue : l.prologue = [] := by
    have hreadings : (⟨{}, .standard, followingPrice.declared, Sapling.type,
        plan⟩ : BlockContext).targetsReadings called plan.targets = [] := by
      refine List.flatMap_eq_nil_iff.mpr fun t ht => ?_
      rw [BlockContext.targetForms, hhook t ht]
      split <;> rfl
    have hops := l.prologue_ops
    rw [hreadings] at hops
    exact List.map_eq_nil_iff.mp hops
  have hposition : BlockContext.storePosition followingPrice.body.code 3 = 2 := by decide +kernel
  have hlt : BlockContext.storePosition followingPrice.body.code 3 < 3 := by rw [hposition]; decide
  have hfirst := l.getElem?_front (p := 0) p.stands.anchored p.head hlt (by rw [hposition]; decide)
  have hsecond := l.getElem?_front (p := 1) p.stands.anchored p.head hlt (by rw [hposition]; decide)
  have hstart := l.start_front p.stands.anchored p.head hlt (Nat.le_refl _)
  have hzero : followingPrice.body.code[0]? = some ⟨.written 0, .ldarg 0⟩ := by decide +kernel
  have hone : followingPrice.body.code[1]? = some ⟨.written 1, .ldarg 1⟩ := by decide +kernel
  rw [hprologue, List.length_nil] at hfirst hsecond hstart
  rw [← p.stands.code, hzero] at hfirst
  rw [← p.stands.code, hone] at hsecond
  -- the run gets to the subscription behind the two loads
  have hloads : ∀ (c : Site) (call : Call), c.Reaches call result.code 0
      ⟨[.ref ⟨1⟩, .struct ⟨18⟩], [], []⟩ machine 2
      ⟨[.ref ⟨1⟩, .struct ⟨18⟩], [], [.struct ⟨18⟩, .ref ⟨1⟩]⟩ ((machine.spent 1).spent 1) := by
    intro c call
    have hthis : c.Does call (.ldarg 0) ⟨[.ref ⟨1⟩, .struct ⟨18⟩], [], []⟩ machine
        (.next ⟨[.ref ⟨1⟩, .struct ⟨18⟩], [], [.ref ⟨1⟩]⟩) (machine.spent 1) :=
      (Site.does_iff (Site.plain_ldarg rfl _)).mpr ⟨by decide, rfl, rfl⟩
    have hvalue : c.Does call (.ldarg 1) ⟨[.ref ⟨1⟩, .struct ⟨18⟩], [], [.ref ⟨1⟩]⟩ (machine.spent 1)
        (.next ⟨[.ref ⟨1⟩, .struct ⟨18⟩], [], [.struct ⟨18⟩, .ref ⟨1⟩]⟩) ((machine.spent 1).spent 1) :=
      (Site.does_iff (Site.plain_ldarg rfl _)).mpr ⟨by decide, rfl, rfl⟩
    exact .next (.next .start hfirst hthis) hsecond hvalue
  refine ⟨result, p.stands.method, fun bound v z => ?_⟩
  refine hfails bound _ ⟨[.ref ⟨1⟩, .struct ⟨18⟩], [], [.struct ⟨18⟩, .ref ⟨1⟩]⟩ machine
    ((machine.spent 1).spent 1) ⟨1⟩ ⟨11⟩ .empty .empty rfl rfl rfl ?_ rfl ?_ v z
  · rw [hstart, hposition]
    exact hloads _ _
  · have hdefault : (woven.2.module.defaultOf followingPrice.field.type).ref? = none := by
      decide +kernel
    rw [Site.fieldValue_empty]
    exact hdefault

open Shop in
/-- Assigning a price works before weaving, and fails after it. -/
theorem price_not_preserved :
    woven.1 = .ok ⟨[3], 1, some ⟨8⟩⟩
      ∧ ((Action.setProperty module ⟨1⟩ Shop.property (.struct ⟨18⟩)).run.run machine).1 = .ok ()
      ∧ ((Action.setProperty woven.2.module ⟨1⟩ Shop.property (.struct ⟨18⟩)).run.run machine).1
        = .error (.runtimeMember "remove-property-changed" "Price::remove_PropertyChanged"
          (.emulation (.memberWithoutReceiver "remove_PropertyChanged"))) := by
  refine ⟨?_, ?_, ?_⟩ <;> decide +kernel

end Weaving

end SetterLoom
