import SetterLoom.Proofs.Machine.Growing
import SetterLoom.Proofs.Weave.Blocks

/-!
# What announcing code does

The code that announces a target reads the value after the change if the invoker takes it, and then calls
the invoker. On an object without handlers that call is one event of the trace, with the values that the
slots hold, whatever the shape of the invoker.

* `announceOps_eq`: the two parts of the code.
* `runs_raise`: the second one.
-/

namespace SetterLoom
set_option autoImplicit false

namespace Invoker

/-- The number of arguments that the invoker takes. -/
def arity : Invoker → Nat
  | .simple _ | .arguments _ _ => 1
  | .senderAndArguments _ _ => 2
  | .beforeAfter _ | .typedBeforeAfter _ => 3

/-- The constructor of the event arguments that the invoker takes. -/
def argsConstructor? : Invoker → Option MethodId
  | .arguments _ c | .senderAndArguments _ c => some c
  | .simple _ | .beforeAfter _ | .typedBeforeAfter _ => none

/-- Whether the values before and after are taken as objects; nothing if the invoker takes none. -/
def valueForm? : Invoker → Option Bool
  | .beforeAfter _ => some true
  | .typedBeforeAfter _ => some false
  | .simple _ | .arguments _ _ | .senderAndArguments _ _ => none

/-- The number of instructions that a call of the invoker takes. -/
def raiseCost : Invoker → Nat
  | .simple _ => 3
  | .arguments _ _ => 8
  | .senderAndArguments _ _ => 9
  | .beforeAfter _ | .typedBeforeAfter _ => 5

/-- The invoker has its shape in the module, and called on an object of the type it comes to a method
that the machine answers for by announcing a change. -/
structure Announces (invoker : Invoker) (m : Module) (hooks : HookTable) (type : Token) :
    Prop where
  method : ∃ d e, m.method? invoker.method = some d ∧ d.isStatic = false ∧ d.returns = none
    ∧ d.params.length = invoker.arity ∧ m.Raises (m.reached type invoker.method d) e hooks
  arguments : ∀ i, invoker.argsConstructor? = some i → ∃ d t f,
    m.MakesArguments i d t f ∧ hooks.find? (⟨m, d⟩ : Site).callName = none

end Invoker

/-- The operation goes on with the next instruction, and is there to do something. -/
def Op.Working (op : Op) : Prop := op.Straight ∧ op.code ≠ .nop

/-- What announces a change loads values, keeps them in slots, makes objects and calls methods. -/
def Op.Announcing (op : Op) : Prop :=
  op.code ∈ ([.ldarg, .ldcI4, .ldloc, .ldstr, .stloc, .box, .newobj, .callvirt] : List OpCode)

theorem Op.Announcing.working {op : Op} (h : op.Announcing) : op.Working := by
  have hall : ∀ code ∈ ([.ldarg, .ldcI4, .ldloc, .ldstr, .stloc, .box, .newobj, .callvirt] : List OpCode),
      (code ≠ .br ∧ code ≠ .brtrue ∧ code ≠ .brfalse ∧ code ≠ .ret) ∧ code ≠ .nop := by
    decide
  exact hall _ h

/-- Such an operation, without a label. -/
def Op.Unlabelled (op : Op) : Prop := op.Announcing ∧ op.target? = none

theorem Op.Announcing.not_ldftn {op : Op} (h : op.Announcing) : op.code ≠ .ldftn := by
  intro hcode
  unfold Op.Announcing at h
  rw [hcode] at h
  revert h
  decide

/-- The value is shown by another one, as an object if `boxed` and its type is a value type. -/
def Heap.Shows (heap : Heap) (m : Module) (type : TypeId) (boxed : Bool) (v v' : Value) : Prop :=
  match (m.type? type).filter fun d => boxed && d.isValue with
  | some d => ∃ q, v' = .ref q ∧ heap.get? q = some (.boxed d.token v)
  | none => v' = v

theorem Heap.shows_self {m : Module} {type : TypeId} {boxed : Bool}
    (h : ¬(boxed && (m.type? type).any (·.isValue)) = true) (heap : Heap) (v : Value) :
    heap.Shows m type boxed v v := by
  have hnone : (m.type? type).filter (fun d => boxed && d.isValue) = none := by
    rw [Option.filter_eq_none_iff]
    intro d hd hboth
    rw [hd] at h
    exact h hboth
  unfold Heap.Shows
  rw [hnone]

theorem Heap.shows_box {m : Module} {type : TypeId} {d : TypeDef} (hd : m.type? type = some d)
    (hvalue : d.isValue = true) (heap : Heap) (v : Value) :
    (heap.push (.boxed d.token v)).Shows m type true v (.ref heap.next) := by
  unfold Heap.Shows
  rw [hd, Option.filter_some, if_pos (by simpa using hvalue)]
  exact ⟨_, rfl, heap.get?_push_new _⟩

theorem Heap.Shows.later {heap heap' : Heap} {m : Module} {type : TypeId} {boxed : Bool}
    {v v' : Value} (h : heap.Shows m type boxed v v')
    (hheap : ∀ r o, heap.get? r = some o → heap'.get? r = some o) :
    heap'.Shows m type boxed v v' := by
  unfold Heap.Shows at h ⊢
  split
  · rename_i d hd
    simp only [hd] at h
    obtain ⟨q, rfl, hq⟩ := h
    exact ⟨q, rfl, hheap q _ hq⟩
  · rename_i hd
    simp only [hd] at h
    exact h

/-- On objects of the type the getter of the property loads the field. -/
structure Property.ReadsFrom (p : Property) (field : Field) (m : Module) (hooks : HookTable)
    (type : Token) : Prop where
  getter : ∃ i d e, p.getter = some i ∧ m.method? i = some d ∧ d.isStatic = false
    ∧ d.returns.isSome = true ∧ d.params = [] ∧ m.method? (m.reached type i d) = some e
    ∧ e.Loads field ∧ hooks.find? (⟨m, e⟩ : Site).callName = none

namespace BlockContext

variable {ctx : BlockContext} {target : Property}

/-- Read the value after the change if the invoker takes it. -/
def valueOps (ctx : BlockContext) (target : Property) (after : UInt16) : List Op :=
  ctx.type.invoker.valueForm?.elim [] fun boxed => ctx.readOps target boxed after

/-- Push the receiver and the arguments, and call the invoker. -/
def raiseOps (ctx : BlockContext) (target : Property) (before after : UInt16) : List Op :=
  let arguments : List Op :=
    match ctx.type.invoker with
    | .simple _ => [.ldstr target.name]
    | .arguments _ c => [.ldstr target.name, .newobj c]
    | .senderAndArguments _ c => [.ldarg 0, .ldstr target.name, .newobj c]
    | .beforeAfter _ | .typedBeforeAfter _ => [.ldstr target.name, .ldloc before, .ldloc after]
  [.ldarg 0] ++ arguments ++ [ctx.callOp ctx.type.invoker.method target]

theorem announceOps_eq (before : String → Bool → UInt16) (after : UInt16) :
    ctx.announceOps target before after
      = ctx.valueOps target after
        ++ ctx.raiseOps target
          (before target.name (ctx.type.invoker.valueForm?.getD false)) after := by
  unfold announceOps valueOps raiseOps
  cases ctx.type.invoker <;> simp [Invoker.valueForm?]

theorem callOp_eq (ctx : BlockContext) (i : MethodId) (target : Property) :
    ∃ types, ctx.callOp i target = ⟨.callvirt, .method ⟨i, types⟩⟩ := by
  unfold callOp
  split
  · exact ⟨_, rfl⟩
  · exact ⟨[], rfl⟩

/-! ## No branches -/

theorem unlabelled_readOps (target : Property) (boxed : Bool) (slot : UInt16) :
    ∀ op ∈ ctx.readOps target boxed slot, op.Unlabelled := by
  intro op hop
  unfold readOps at hop
  dsimp only at hop
  rcases List.mem_append.mp hop with hop | hop
  · rcases List.mem_append.mp hop with hop | hop
    · rcases List.mem_append.mp hop with hop | hop
      · rw [List.mem_singleton.mp hop]
        exact ⟨by simp [Op.Announcing, Op.ldarg], rfl⟩
      · obtain ⟨i, -, rfl⟩ := List.mem_map.mp hop
        exact ⟨by simp [Op.Announcing, Op.callvirt], rfl⟩
    · split at hop
      · rw [List.mem_singleton.mp hop]
        exact ⟨by simp [Op.Announcing, Op.box], rfl⟩
      · exact absurd hop List.not_mem_nil
  · rw [List.mem_singleton.mp hop]
    exact ⟨by simp [Op.Announcing, Op.stloc], rfl⟩

private theorem unlabelled_of_codes {ops : List Op} (codes : List OpCode)
    (hops : ops.map (·.code) = codes)
    (hcodes : codes ⊆ [.ldarg, .ldcI4, .ldloc, .ldstr, .stloc, .box, .newobj, .callvirt])
    (htargets : ops.all (·.target?.isNone) = true) : ∀ op ∈ ops, op.Unlabelled :=
  fun op hop => ⟨hcodes (hops ▸ List.mem_map_of_mem hop),
    Option.isNone_iff_eq_none.mp (List.all_eq_true.mp htargets op hop)⟩

private theorem unlabelled_raiseOps (target : Property) (before after : UInt16) :
    ∀ op ∈ ctx.raiseOps target before after, op.Unlabelled := by
  obtain ⟨types, hcall⟩ := ctx.callOp_eq ctx.type.invoker.method target
  unfold raiseOps
  rw [hcall]
  cases ctx.type.invoker with
  | simple =>
    refine unlabelled_of_codes [.ldarg, .ldstr, .callvirt] ?_ (by decide) ?_ <;> rfl
  | arguments =>
    refine unlabelled_of_codes [.ldarg, .ldstr, .newobj, .callvirt] ?_ (by decide) ?_ <;> rfl
  | senderAndArguments =>
    refine unlabelled_of_codes [.ldarg, .ldarg, .ldstr, .newobj, .callvirt] ?_ (by decide) ?_ <;> rfl
  | beforeAfter | typedBeforeAfter =>
    refine unlabelled_of_codes [.ldarg, .ldstr, .ldloc, .ldloc, .callvirt] ?_ (by decide) ?_ <;> rfl

theorem unlabelled_announceOps (target : Property) (before : String → Bool → UInt16)
    (after : UInt16) : ∀ op ∈ ctx.announceOps target before after, op.Unlabelled := by
  rw [announceOps_eq]
  intro op hop
  rcases List.mem_append.mp hop with hop | hop
  · unfold valueOps at hop
    cases hform : ctx.type.invoker.valueForm? with
    | none =>
      rw [hform] at hop
      exact absurd hop List.not_mem_nil
    | some boxed =>
      rw [hform] at hop
      exact unlabelled_readOps target boxed after op hop
  · exact unlabelled_raiseOps target _ after op hop

theorem unlabelled_hookOps (target : Property) (hook : ChangeHook)
    (before : String → Bool → UInt16) (after : UInt16) :
    ∀ op ∈ ctx.hookOps target hook before after, op.Unlabelled := by
  intro op hop
  cases hook with
  | noArguments i => exact unlabelled_of_codes [.ldarg, .callvirt] rfl (by decide) rfl op hop
  | beforeAfter i =>
    rcases List.mem_append.mp hop with hop | hop
    · exact unlabelled_readOps target true after op hop
    · exact unlabelled_of_codes [.ldarg, .ldloc, .ldloc, .callvirt] rfl (by decide) rfl op hop

theorem unlabelled_dirtyFlagOps (ctx : BlockContext) : ∀ op ∈ ctx.dirtyFlagOps, op.Unlabelled := by
  unfold dirtyFlagOps
  cases ctx.dirtySetter? with
  | none => exact fun _ hop => absurd hop List.not_mem_nil
  | some i => exact unlabelled_of_codes [.ldarg, .ldcI4, .callvirt] rfl (by decide) rfl

theorem unlabelled_changeOps (called : List String) (before : String → Bool → UInt16)
    (after : List AfterSlots) : ∀ op ∈ ctx.changeOps called before after, op.Unlabelled := by
  intro op hop
  rcases List.mem_append.mp hop with hop | hop
  · exact ctx.unlabelled_dirtyFlagOps op hop
  · obtain ⟨t, -, hop⟩ := List.mem_flatMap.mp hop
    rcases List.mem_append.mp hop with hop | hop
    · cases hhook : ctx.hookFor? called t.1 with
      | none =>
        rw [hhook] at hop
        exact absurd hop List.not_mem_nil
      | some hook =>
        rw [hhook] at hop
        exact unlabelled_hookOps t.1 hook before t.2.hook op hop
    · split at hop
      · exact absurd hop List.not_mem_nil
      · exact unlabelled_announceOps t.1 before t.2.call op hop

theorem unlabelled_entryOps (readings : List Reading) (before : String → Bool → UInt16) :
    ∀ op ∈ ctx.entryOps readings before, op.Unlabelled := by
  intro op hop
  obtain ⟨q, -, hop⟩ := List.mem_flatMap.mp hop
  exact unlabelled_readOps q.1 q.2 _ op hop

variable {c : Site} (bound : Nat) {f g : Frame} {s t : Machine} {r : HeapRef} {type : Token}
  {fields : TokenMap Value}

/-! ## Calling the invoker -/

/-- The code calls a method on the object, from a state beside the given one, with arguments that announce the
name with the values. All objects have the handlers that they had, unless the name in event arguments is kept
behind a changed event. -/
def CallsRaiser (c : Site) (call : Call) (i : MethodId) (r : HeapRef) (ops : List Op) (f h : Frame)
    (s : Machine) (cost : Nat) (name : String) (before after : Option Value) : Prop :=
  ∃ x arguments, s.Extends c.module x [] ∧ (c.module.NameApart → s.Adds c.module x [])
    ∧ x.executed = s.executed + cost
    ∧ (∀ u : Machine, u.heap = x.heap →
      (Action.announcement c.module arguments).run.run u = (.ok (name, before, after), u))
    ∧ ∀ g u, c.Runs call ops f s g u
      ↔ s.executed + cost ≤ s.limit ∧ g = h
        ∧ ∃ v, (call i (some (.ref r)) arguments).run.run x = (.ok v, u)

private theorem CallsRaiser.ldarg {call : Call} {i : MethodId} {ops : List Op} {h : Frame} {cost : Nat} {v : Value}
    {name : String} {before after : Option Value} (hv : f.arguments[0]? = some v)
    (hcalls : CallsRaiser c call i r ops (f.push v) h (s.spent 1) cost name before after) :
    CallsRaiser c call i r (.ldarg 0 :: ops) f h s (cost + 1) name before after := by
  obtain ⟨x, arguments, hx, hadds, hexecuted, hannounced, hruns⟩ := hcalls
  have hspent : (s.spent 1).executed = s.executed + 1 := rfl
  refine ⟨x, arguments, ((Machine.Extends.refl c.module s).spent 1).trans hx,
    fun hname => ((Machine.Adds.refl c.module s).spent 1).trans (hadds hname), by omega, hannounced,
    fun g u => ?_⟩
  rw [Site.runs_plain (Site.plain_ldarg hv), hruns]
  show s.executed < s.limit ∧ s.executed + 1 + cost ≤ s.limit ∧ _ ↔ _
  constructor
  · rintro ⟨-, hroom, hrest⟩
    exact ⟨by omega, hrest⟩
  · rintro ⟨hroom, hrest⟩
    exact ⟨by omega, by omega, hrest⟩

theorem announcement_string {m : Module} {q : HeapRef} {name : String} {heap : Heap}
    (hq : heap.get? q = some (.string name)) {u : Machine} (hu : u.heap = heap) :
    (Action.announcement m [.ref q]).run.run u = (.ok (name, none, none), u) := by
  have hname : (Action.propertyName m (.ref q)).run.run u = (.ok name, u) :=
    Action.propertyName_string (hu ▸ hq)
  show (Action.propertyName m (.ref q) >>= fun name => pure (name, none, none)).run.run u = _
  rw [Action.bind_run, hname]
  rfl

private theorem made_string (name : String) : (HeapObject.string name).Made := fun _ _ heq => by cases heq

section Shapes

variable {invoker : Invoker} {d : Method} (hannounces : invoker.Announces c.module s.hooks type)
  (hd : c.module.method? invoker.method = some d) (hr : s.heap.get? r = some (.object type fields))
  (hthis : f.arguments[0]? = some (.ref r)) (name : String) (types : List TypeId)
include hannounces hd hr

private theorem runs_callOp (call : Call) {arguments : List Value}
    (hcount : arguments.length = invoker.arity) (g : Frame) (u : Machine) :
    c.Runs call [⟨.callvirt, .method ⟨invoker.method, types⟩⟩]
        { f.push (.ref r) with stack := arguments.reverse ++ (f.push (.ref r)).stack } s g u
      ↔ s.executed + 1 ≤ s.limit ∧ g = f
        ∧ ∃ v, (call (c.module.reached type invoker.method d) (some (.ref r)) arguments).run.run (s.spent 1)
          = (.ok v, u) := by
  obtain ⟨d', -, hd', hinstance, hvoid, hparams, -⟩ := hannounces.method
  obtain rfl := Option.some.inj (hd'.symm.trans hd)
  rw [Site.runs_callvirt rfl hd hinstance (hcount.trans hparams.symm) rfl hr]
  simp only [hvoid, Option.isSome_none, Bool.false_eq_true, if_false, Site.runs_nil]
  constructor
  · rintro ⟨hroom, v, _, hrun, rfl, rfl⟩
    exact ⟨hroom, rfl, v, hrun⟩
  · rintro ⟨hroom, rfl, v, hrun⟩
    exact ⟨hroom, v, u, hrun, rfl, rfl⟩

include hthis

private theorem runs_simple (call : Call) (harity : invoker.arity = 1) :
    CallsRaiser c call (c.module.reached type invoker.method d) r
      [.ldarg 0, .ldstr name, ⟨.callvirt, .method ⟨invoker.method, types⟩⟩] f f s 3 name none none := by
  refine CallsRaiser.ldarg hthis ?_
  let x : Machine := { s.spent 2 with heap := s.heap.push (.string name) }
  have hx : s.Extends c.module x [] := ((Machine.Extends.refl c.module s).spent 2).push _
  have hcount : [Value.ref s.heap.next].length = invoker.arity := harity.symm
  have hadds : (s.spent 1).Adds c.module (x.spent 1) [] :=
    (((Machine.Adds.refl c.module (s.spent 1)).spent 1).push (made_string name)).spent 1
  refine ⟨x.spent 1, [.ref s.heap.next], hadds.toExtends, fun _ => hadds, rfl,
    fun u hu => announcement_string (s.heap.get?_push_new _) hu, fun g u => ?_⟩
  rw [Site.runs_cons_of_step (Site.step_ldstr name)]
  refine Iff.trans (and_congr_right fun _ =>
    runs_callOp (s := x) (f := f) hannounces hd (hx.heap r _ hr) types _ hcount g u) ?_
  show s.executed + 1 < s.limit ∧ s.executed + 2 + 1 ≤ s.limit ∧ _ ↔ s.executed + 1 + 2 ≤ s.limit ∧ _
  constructor
  · rintro ⟨-, hroom, hrest⟩
    exact ⟨hroom, hrest⟩
  · rintro ⟨hroom, hrest⟩
    exact ⟨by omega, hroom, hrest⟩

private theorem runs_values (call : Call) (harity : invoker.arity = 3) {k k' : UInt16} {b a : Value}
    (hb : f.slots[k.toNat]? = some b) (ha : f.slots[k'.toNat]? = some a) :
    CallsRaiser c call (c.module.reached type invoker.method d) r
      [.ldarg 0, .ldstr name, .ldloc k, .ldloc k', ⟨.callvirt, .method ⟨invoker.method, types⟩⟩] f f s 5 name
      (some b) (some a) := by
  refine CallsRaiser.ldarg hthis ?_
  let x : Machine := { s.spent 4 with heap := s.heap.push (.string name) }
  have hx : s.Extends c.module x [] := ((Machine.Extends.refl c.module s).spent 4).push _
  have hcount : [Value.ref s.heap.next, b, a].length = invoker.arity := harity.symm
  have hadds : (s.spent 1).Adds c.module (x.spent 1) [] :=
    (((Machine.Adds.refl c.module (s.spent 1)).spent 3).push (made_string name)).spent 1
  refine ⟨x.spent 1, [.ref s.heap.next, b, a], hadds.toExtends, fun _ => hadds, rfl, fun u hu => ?_,
    fun g u => ?_⟩
  · have hname : (Action.propertyName c.module (.ref s.heap.next)).run.run u = (.ok name, u) :=
      Action.propertyName_string (hu ▸ s.heap.get?_push_new _)
    show (Action.propertyName c.module (.ref s.heap.next) >>= fun name =>
      pure (name, some b, some a)).run.run u = _
    rw [Action.bind_run, hname]
    rfl
  let f₁ : Frame := (f.push (.ref r)).push (.ref s.heap.next)
  have hb₁ : f₁.slots[k.toNat]? = some b := hb
  have ha₁ : (f₁.push b).slots[k'.toNat]? = some a := ha
  refine Iff.trans ((Site.runs_cons_of_step (Site.step_ldstr name)).trans (and_congr_right fun _ =>
    (Site.runs_plain (Site.plain_ldloc hb₁)).trans (and_congr_right fun _ =>
      (Site.runs_plain (Site.plain_ldloc ha₁)).trans (and_congr_right fun _ =>
        runs_callOp (s := x) (f := f) hannounces hd (hx.heap r _ hr) types _ hcount g u)))) ?_
  -- the operations in between only need room, which the call at the end takes as well
  show s.executed + 1 < s.limit ∧ s.executed + 2 < s.limit ∧ s.executed + 3 < s.limit
      ∧ s.executed + 4 + 1 ≤ s.limit ∧ _ ↔ s.executed + 1 + 4 ≤ s.limit ∧ _
  constructor
  · rintro ⟨-, -, -, hroom, hrest⟩
    exact ⟨hroom, hrest⟩
  · rintro ⟨hroom, hrest⟩
    exact ⟨by omega, by omega, by omega, hroom, hrest⟩

omit hthis in
private theorem runs_arguments {k : MethodId} (hconstructor : invoker.argsConstructor? = some k)
    (sender : List Value) (harity : invoker.arity = sender.length + 1) (hsender : sender.length ≤ 1) :
    CallsRaiser c (Action.invokeAt c.module bound) (c.module.reached type invoker.method d) r
      [.ldstr name, .newobj k, ⟨.callvirt, .method ⟨invoker.method, types⟩⟩]
      { f.push (.ref r) with stack := sender ++ (f.push (.ref r)).stack } f s 7 name none none := by
  obtain ⟨j, t, field, hmakes, hhook⟩ := hannounces.arguments k hconstructor
  let y : Machine := { s.spent 1 with heap := s.heap.push (.string name) }
  let x : Machine := Action.named c.module k j t field (.ref s.heap.next) (y.spent 1)
  have hy : s.Extends c.module y [] := ((Machine.Extends.refl c.module s).spent 1).push _
  have hyx : y.Extends c.module x [] :=
    ((Machine.Extends.refl c.module y).spent 1).trans (Machine.extends_named hmakes.method ..)
  have hx : s.Extends c.module x [] := hy.trans hyx
  obtain ⟨u, hrequire, hfield⟩ := hmakes.name
  have hstring : x.heap.get? s.heap.next = some (.string name) :=
    hyx.heap _ _ (s.heap.get?_push_new _)
  have hobject : x.heap.get? y.heap.next = some (.object t.token
      ((TokenMap.empty : TokenMap Value).insert field.token (.ref s.heap.next))) :=
    Machine.get?_named ..
  have hcount : (sender ++ [Value.ref y.heap.next]).length = invoker.arity := by
    rw [List.length_append, harity, List.length_singleton]
  have hreverse : sender.reverse = sender := by
    match sender, hsender with
    | [], _ => rfl
    | [_], _ => rfl
  have hcall := fun g u => runs_callOp (s := x) (f := f) (hx.hooks.symm ▸ hannounces) hd (hx.heap r _ hr) types
    (Action.invokeAt c.module bound) hcount g u
  have hadds : s.Adds c.module y [] := ((Machine.Adds.refl c.module s).spent 1).push (made_string name)
  refine ⟨x.spent 1, sender ++ [.ref y.heap.next], hx.spent 1,
    fun hname => ((hadds.spent 1).named hname hmakes _).spent 1, rfl, fun u hu => ?_, fun g u => ?_⟩
  · have hname : (Action.propertyName c.module (.ref y.heap.next)).run.run u = (.ok name, u) :=
      Action.propertyName_arguments hrequire hfield (hu ▸ hobject)
        (TokenMap.get?_insert_self _ _ _) (hu ▸ hstring)
    have hshape : (Action.announcement c.module (sender ++ [.ref y.heap.next])).run.run u
        = (Action.propertyName c.module (.ref y.heap.next) >>= fun name =>
          pure (name, none, none)).run.run u := by
      match sender, hsender with
      | [], _ => rfl
      | [_], _ => rfl
    rw [hshape, Action.bind_run, hname]
    rfl
  rw [List.reverse_append, hreverse] at hcall
  rw [Site.runs_cons_of_step (Site.step_ldstr name)]
  cases bound with
  | zero =>
    -- neither the constructor nor the invoker can be called
    refine iff_of_false (fun h => Site.not_runs_newobj_zero (s := y) (v := .ref s.heap.next)
      (g := { f.push (.ref r) with stack := sender ++ (f.push (.ref r)).stack }) hmakes h.2) ?_
    rintro ⟨-, -, v, hrun⟩
    cases (Prod.mk.inj hrun).1
  | succ bound =>
    refine Iff.trans (and_congr_right fun _ =>
      (Site.runs_newobj (s := y) (v := .ref s.heap.next)
        (g := { f.push (.ref r) with stack := sender ++ (f.push (.ref r)).stack }) hmakes
        hhook).trans (and_congr_right fun _ => and_congr_right fun _ => hcall g u)) ?_
    show s.executed < s.limit ∧ s.depth < maxDepth ∧ s.executed + 1 + 5 ≤ s.limit
        ∧ s.executed + 1 + 1 + 4 + 1 ≤ s.limit ∧ g = f ∧ _ ↔ _
    obtain ⟨d', e, hd', -, -, -, hraises⟩ := hannounces.method
    obtain rfl := Option.some.inj (hd'.symm.trans hd)
    constructor
    · rintro ⟨-, -, -, hroom, hrest⟩
      exact ⟨hroom, hrest⟩
    · rintro ⟨hroom, rfl, v, hrun⟩
      have hdepth : s.depth < maxDepth := ((Action.invokeWith_run hraises.method _ _).mp hrun).1
      exact ⟨by omega, hdepth, by omega, hroom, rfl, v, hrun⟩

end Shapes

theorem callsRaiser_raiseOps (hr : s.heap.get? r = some (.object type fields))
    (hthis : f.arguments[0]? = some (.ref r)) (target : Property)
    (hannounces : ctx.type.invoker.Announces c.module s.hooks type) {k k' : UInt16} {b a : Value}
    (hb : ctx.type.invoker.valueForm?.isSome → f.slots[k.toNat]? = some b)
    (ha : ctx.type.invoker.valueForm?.isSome → f.slots[k'.toNat]? = some a) {d : Method}
    (hd : c.module.method? ctx.type.invoker.method = some d) :
    CallsRaiser c (Action.invokeAt c.module bound) (c.module.reached type ctx.type.invoker.method d) r
      (ctx.raiseOps target k k') f f s ctx.type.invoker.raiseCost target.name
      (ctx.type.invoker.valueForm?.map fun _ => b) (ctx.type.invoker.valueForm?.map fun _ => a) := by
  obtain ⟨types, hop⟩ := ctx.callOp_eq ctx.type.invoker.method target
  unfold raiseOps
  rw [hop]
  have hthis₁ : (f.push (.ref r)).arguments[0]? = some (.ref r) := hthis
  have hr₁ : (s.spent 1).heap.get? r = some (.object type fields) := hr
  have hr₂ : (s.spent 2).heap.get? r = some (.object type fields) := hr
  -- the forms of the invoker differ in what is pushed in front of the call
  cases hinvoker : ctx.type.invoker with
  | simple i =>
    rw [hinvoker] at hannounces hd
    exact runs_simple hannounces hd hr hthis target.name types _ rfl
  | beforeAfter i | typedBeforeAfter i =>
    rw [hinvoker] at hannounces hd hb ha
    exact runs_values hannounces hd hr hthis target.name types _ rfl (hb rfl) (ha rfl)
  | arguments i k =>
    rw [hinvoker] at hannounces hd
    exact CallsRaiser.ldarg hthis
      (runs_arguments bound (s := s.spent 1) hannounces hd hr₁ target.name types rfl [] rfl (Nat.zero_le _))
  | senderAndArguments i k =>
    rw [hinvoker] at hannounces hd
    exact CallsRaiser.ldarg hthis (CallsRaiser.ldarg hthis₁
      (runs_arguments bound (s := s.spent 2) hannounces hd hr₂ target.name types rfl [.ref r] rfl
        (Nat.le_refl _)))

/-- On an object without handlers, calling the invoker for a target announces the target. -/
theorem runs_raise (hr : s.heap.get? r = some (.object type fields)) (hunheard : s.Unheard c.module r)
    (hthis : f.arguments[0]? = some (.ref r)) (target : Property)
    (hannounces : ctx.type.invoker.Announces c.module s.hooks type) {k k' : UInt16} {b a : Value}
    (hb : ctx.type.invoker.valueForm?.isSome → f.slots[k.toNat]? = some b)
    (ha : ctx.type.invoker.valueForm?.isSome → f.slots[k'.toNat]? = some a) :
    ∃ T, s.Extends c.module T [.notified r target.name
        (ctx.type.invoker.valueForm?.map fun _ => b) (ctx.type.invoker.valueForm?.map fun _ => a)]
      ∧ T.executed = s.executed + ctx.type.invoker.raiseCost
      ∧ ∀ g u, c.Runs (Action.invokeAt c.module (bound + 1)) (ctx.raiseOps target k k') f s g u
        ↔ s.depth < maxDepth ∧ s.executed + ctx.type.invoker.raiseCost ≤ s.limit
          ∧ g = f ∧ u = T := by
  obtain ⟨d, e, hd, -, -, -, hraises⟩ := hannounces.method
  obtain ⟨x, arguments, hx, -, hexecuted, hannounced, hruns⟩ :=
    callsRaiser_raiseOps (bound + 1) hr hthis target hannounces hb ha hd
  have hunheard' : x.Unheard c.module r := Action.unheard_of_heap hunheard ((hx.heap r _ hr).trans hr.symm)
  refine ⟨_, hx.trans (Machine.extends_raised (s := x) hraises.method), hexecuted, fun g u => ?_⟩
  rw [hruns]
  have hcall : ∀ v t, (Action.invokeWith c.module (Action.invokeAt c.module bound)
      (c.module.reached type ctx.type.invoker.method d) (some (.ref r)) arguments).run.run x = (.ok v, t) ↔ _ :=
    fun v t => Action.raiser_run (hx.hooks ▸ hraises) hunheard' hannounced
  rw [← hx.depth]
  constructor
  · rintro ⟨hroom, hg, v, hrun⟩
    obtain ⟨hdepth, -, hu⟩ := (hcall v u).mp hrun
    exact ⟨hdepth, hroom, hg, hu⟩
  · rintro ⟨hdepth, hroom, hg, hu⟩
    exact ⟨hroom, hg, .void, (hcall .void u).mpr ⟨hdepth, rfl, hu⟩⟩

/-! ## Reading a value -/

variable {field : Field} {slot : UInt16}

section Read

variable (hreads : target.ReadsFrom field c.module s.hooks type)
  (hr : s.heap.get? r = some (.object type fields)) (hthis : f.arguments[0]? = some (.ref r))
  (hdepth : s.depth < maxDepth)
include hreads hr hthis hdepth

theorem runs_value (hroom : s.executed + 5 ≤ s.limit) :
    ∃ x, s.Extends c.module x [] ∧ x.executed = s.executed + 5
      ∧ ∀ {ops : List Op} {h : Frame} {u : Machine},
        c.Runs (Action.invokeAt c.module (bound + 1)) ops (f.push (c.fieldValue fields field)) x h u →
          c.Runs (Action.invokeAt c.module (bound + 1))
            ([.ldarg 0] ++ target.getter.toList.map Op.callvirt ++ ops) f s h u := by
  obtain ⟨i, d, e, hgetter, hd, hinstance, hresult, hparams, he, hloads, hhook⟩ := hreads.getter
  let x : Machine :=
    ((s.spent 2).entered ⟨c.module, e⟩ (c.module.reached type i d)).spent 3
  have hread : (Action.invokeAt c.module (bound + 1) (c.module.reached type i d) (some (.ref r))
      []).run.run ((s.spent 1).spent 1) = (.ok (c.fieldValue fields field), x) := by
    refine (Action.getter_run (s := (s.spent 1).spent 1) he hloads hhook hr).mpr ⟨hdepth, ?_, rfl, rfl⟩
    show s.executed + 1 + 1 + 3 ≤ s.limit
    omega
  refine ⟨x, ((Machine.Extends.refl c.module s).spent 2).trans (Machine.extends_getter he 3), rfl,
    fun {ops h u} hrest => ?_⟩
  have hone : c.Runs (Action.invokeAt c.module (bound + 1)) (.callvirt i :: ops)
      (f.push (.ref r)) (s.spent 1) h u := by
    have hcount : ([] : List Value).length = d.params.length := by
      rw [hparams]
      rfl
    refine (Site.runs_callvirt (s := s.spent 1) (g := f)
      (rfl : Op.callvirt i = ⟨.callvirt, .method ⟨i, []⟩⟩) hd hinstance hcount rfl hr).mpr
        ⟨?_, _, x, hread, ?_⟩
    · show s.executed + 1 < s.limit
      omega
    · rw [if_pos hresult]
      exact hrest
  rw [hgetter]
  exact (Site.runs_plain (Site.plain_ldarg hthis)).mpr ⟨by omega, hone⟩

/-- Reading a target stores the value of its field in the slot. -/
theorem runs_read (boxed : Bool) (htypes : ctx.module.types = c.module.types)
    (hslot : slot.toNat < f.slots.length) (hroom : s.executed + 7 ≤ s.limit) :
    ∃ v T, c.Runs (Action.invokeAt c.module (bound + 1)) (ctx.readOps target boxed slot) f s
        { f with slots := f.slots.set slot.toNat v } T
      ∧ s.Extends c.module T [] ∧ T.executed ≤ s.executed + 7
      ∧ T.heap.Shows c.module target.type boxed (c.fieldValue fields field) v := by
  obtain ⟨x, hx, hcount, hfront⟩ := runs_value bound hreads hr hthis hdepth (show s.executed + 5 ≤ s.limit by omega)
  have hlimit := hx.limit
  have hvalue : (ctx.module.type? target.type).any (·.isValue)
      = (c.module.type? target.type).any (·.isValue) := by
    rw [Module.type?_of_types htypes]
  unfold readOps
  simp only [hvalue]
  -- a value of a value type is boxed first if it is wanted as an object
  by_cases hboxing : boxed && (c.module.type? target.type).any (·.isValue)
  · rw [Bool.and_eq_true, Option.any_eq_true] at hboxing
    obtain ⟨rfl, t, ht, hisValue⟩ := hboxing
    let y : Machine :=
      { x.spent 1 with heap := x.heap.push (.boxed t.token (c.fieldValue fields field)) }
    refine ⟨.ref x.heap.next, y.spent 1, ?_, ((hx.spent 1).push _).spent 1, ?_, Heap.shows_box ht hisValue _ _⟩
    · rw [if_pos (by rw [ht]; simpa using hisValue), List.append_assoc]
      refine hfront ((Site.runs_cons_of_step (Site.step_box ht hisValue)).mpr ⟨by omega,
        (Site.runs_plain (Site.plain_stloc hslot)).mpr ⟨?_, .nil _ _⟩⟩)
      show x.executed + 1 < x.limit
      omega
    · show x.executed + 1 + 1 ≤ s.executed + 7
      omega
  · refine ⟨c.fieldValue fields field, x.spent 1, ?_, hx.spent 1, ?_, Heap.shows_self hboxing _ _⟩
    · rw [if_neg hboxing, List.append_nil]
      exact hfront ((Site.runs_plain (Site.plain_stloc hslot)).mpr ⟨by omega, .nil _ _⟩)
    · show x.executed + 1 ≤ s.executed + 7
      omega

end Read

end BlockContext

end SetterLoom
