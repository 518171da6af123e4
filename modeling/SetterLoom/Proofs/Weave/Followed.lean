import SetterLoom.Proofs.Weave.Accessed
import SetterLoom.Proofs.Weave.Added

/-!
# Which stores move the subscription

The subscription stands around the first store of a body. A run that comes to that store from the
instruction in front of it has just taken the handler from the value that is there, and behind the store
it gives the handler to the new value before it does anything else. A branch to the store goes past the
first half, and the other stores move nothing.

* `holds_store`: the store in the woven code.
* `first_store_follows`: runs of a woven setter.
-/

namespace SetterLoom
set_option autoImplicit false

theorem Stream.settled_of_no_target {code : Stream} (serial : Nat)
    (h : ∀ j ∈ code, j.op.target? = none) : code.Settled serial := by
  intro j hj l hl
  rw [h j hj] at hl
  cases hl

namespace Layout

variable {ctx : BlockContext} {subscription : Option (Field × Event × MethodId)}
  {called : List String} {anchors : List Nat} {before : String → Bool → UInt16}
  (l : Layout ctx subscription called anchors before) {code : Stream} {a : Nat}

/-- The instructions of the first store. -/
def firstStore (code : Stream) (a : Nat) : List Instruction :=
  (code.drop (BlockContext.storePosition code a)).take (a - BlockContext.storePosition code a)

/-- A store is one instruction, or the address of the field and the instruction that clears it. -/
theorem firstStore_cases {name : String} (ha : a ∈ code.stores name) :
    (∃ i, 0 < a ∧ BlockContext.storePosition code a = a - 1 ∧ code[a - 1]? = some i
        ∧ i.op.storesTo name ∧ firstStore code a = [i])
      ∨ ∃ i j, 1 < a ∧ BlockContext.storePosition code a = a - 2 ∧ code[a - 2]? = some i
        ∧ i.op.addresses name ∧ code[a - 1]? = some j ∧ j.code = .initobj
        ∧ firstStore code a = [i, j] := by
  have htake : ∀ {p : Nat} {i : Instruction}, code[p]? = some i → code.drop p = i :: code.drop (p + 1) := by
    intro p i hi
    obtain ⟨hlt, rfl⟩ := List.getElem?_eq_some_iff.mp hi
    exact List.drop_eq_getElem_cons hlt
  -- an instruction that stores cannot be the one that clears, so the
  -- position is counted back by one or by two
  rcases Stream.mem_stores.mp ha with ⟨i, hpos, hi, hstore⟩ | ⟨i, j, hpos, hi, haddress, hj, hinit⟩
  · have hposition : BlockContext.storePosition code a = a - 1 := by
      unfold BlockContext.storePosition
      rw [hi, if_neg]
      intro hclear
      have hclear : i.code = .initobj := by simpa using hclear
      have hcode : i.code = .stfld := (Op.storesTo_iff.mp hstore).1
      rw [hclear] at hcode
      cases hcode
    refine .inl ⟨i, hpos, hposition, hi, hstore, ?_⟩
    have hone : a - (a - 1) = 1 := by omega
    rw [firstStore, hposition, hone, htake hi]
    rfl
  · have hposition : BlockContext.storePosition code a = a - 2 := by
      unfold BlockContext.storePosition
      rw [hj, if_pos (by simpa using hinit)]
    refine .inr ⟨i, j, hpos, hposition, hi, haddress, hj, hinit, ?_⟩
    have hnext : a - 2 + 1 = a - 1 := by omega
    have htwo : a - (a - 2) = 2 := by omega
    rw [firstStore, hposition, htwo, htake hi, hnext, htake hj]
    rfl

theorem straight_firstStore {name : String} (ha : a ∈ code.stores name) :
    ∀ i ∈ firstStore code a, i.op.Straight := by
  have hof : ∀ {op : Op} {c : OpCode}, op.code = c → c ≠ .br ∧ c ≠ .brtrue ∧ c ≠ .brfalse ∧ c ≠ .ret →
      op.Straight := by
    rintro op c rfl h
    exact h
  rcases firstStore_cases ha with ⟨i, -, -, -, hstore, hops⟩ | ⟨i, j, -, -, -, haddress, -, hinit, hops⟩
  · intro k hk
    rw [hops, List.mem_singleton] at hk
    subst hk
    exact hof (Op.storesTo_iff.mp hstore).1 (by decide)
  · intro k hk
    rw [hops] at hk
    rcases List.mem_cons.mp hk with rfl | hk
    · exact hof (Op.addresses_iff.mp haddress).1 (by decide)
    · rw [List.mem_singleton.mp hk]
      exact hof hinit (by decide)

/-- The first store stands in the woven code as it was, between the two halves of the subscription. -/
theorem holds_store (hanchored : Anchored subscription anchors code) (hhead : anchors.head? = some a)
    {name : String} (ha : a ∈ code.stores name) :
    (l.weave code).Holds (l.place code (BlockContext.storePosition code a)) (firstStore code a)
      ∧ l.place code (BlockContext.storePosition code a) + (firstStore code a).length
        = l.start code a := by
  have hle := hanchored.inside a (List.mem_of_head? hhead)
  rcases firstStore_cases ha with ⟨i, hpos, hposition, hi, -, hops⟩ | ⟨i, j, hpos, hposition, hi, -, hj, -, hops⟩
  · have hplace := l.getElem?_place (show a - 1 ≤ code.length by omega)
    have hsucc := l.start_succ code (a - 1)
    rw [Nat.sub_add_cancel hpos] at hsucc
    rw [hops, hposition]
    refine ⟨fun k hk => ?_, hsucc.symm⟩
    obtain rfl : k = 0 := by simpa using hk
    rw [Nat.add_zero, hplace, hi]
    rfl
  -- nothing is injected between the address and the instruction that
  -- clears, so they stay next to each other
  · have hplace := l.getElem?_place (show a - 2 ≤ code.length by omega)
    have hplace' := l.getElem?_place (show a - 1 ≤ code.length by omega)
    have hbetween := l.block_before hanchored hhead (p := a - 1) (by omega) (by omega)
    have hsucc := l.start_succ code (a - 2)
    have hsucc' := l.start_succ code (a - 1)
    have hnext : a - 2 + 1 = a - 1 := by omega
    have hlast : a - 1 + 1 = a := by omega
    have hsame := l.place_eq code (a - 1)
    rw [hbetween, List.length_nil, Nat.add_zero] at hsame
    rw [hnext] at hsucc
    rw [hlast] at hsucc'
    rw [hops, hposition]
    refine ⟨fun k hk => ?_, ?_⟩
    · have hcases : k = 0 ∨ k = 1 := by
        rw [List.length_cons, List.length_singleton] at hk
        omega
      rcases hcases with rfl | rfl
      · rw [Nat.add_zero, hplace, hi]
        rfl
      · rw [← hsucc, ← hsame, hplace', hj]
        rfl
    · rw [List.length_cons, List.length_singleton]
      omega

/-! ## Runs of woven code -/

section Runs

variable {field : Field} {event : Event} {handler add remove : MethodId} {serial count : Nat}
  {l : Layout ctx (some (field, event, handler)) called anchors before}
  (hanchored : Anchored (some (field, event, handler)) anchors code)
  (hlabels : ((l.injected code).map (·.label)).Perm ((List.range' serial count).map .drawn))
  (hhead : anchors.head? = some a) (ha : a ∈ code.stores field.name)
  (hreference : (ctx.module.type? field.type).any (·.isValue) = false)
  {m : Module} {d : Method} {bound : Nat} {f g h : Frame} {s u z : Machine} {r : HeapRef}
  {type : Token} {fields : TokenMap Value} {q : Nat} {handlerType : Token}
  {comparer handles accesses : Method}
  (hthis : f.arguments[0]? = some (.ref r)) (hr : s.heap.get? r = some (.object type fields))
include hanchored hlabels hhead hreference hthis hr

/-- A run that falls onto the first store has just offered a handler for removal. -/
theorem offers_before (P : ctx.Parts field handler add l.subscribe)
    (R : ctx.Parts field handler remove l.unsubscribe) (hsettled : code.Settled serial)
    (hsubscribes : m.Subscribes s.hooks R.equals R.handlerConstructor handler remove comparer handles
      accesses handlerType)
    (hfalls : (⟨m, d⟩ : Site).FallsOnto (Action.invokeAt m bound) (l.weave code) 0 f s
      (l.place code (BlockContext.storePosition code a)) g u) :
    ∃ y, (⟨m, d⟩ : Site).Reaches (Action.invokeAt m bound) (l.weave code) 0 f s
        (l.start code (BlockContext.storePosition code a)) g y
      ∧ (⟨m, d⟩ : Site).Offers (Action.invokeAt m bound) R.equals handler remove comparer handles
        accesses handlerType field r y u := by
  obtain ⟨hpos, hle⟩ := head_pos hanchored hhead
  have hlt : BlockContext.storePosition code a < a := storePosition_lt hpos
  have hblock := l.block_store hanchored hhead hpos
  have hholds := l.holds_block (show BlockContext.storePosition code a ≤ code.length by omega)
  have hplace := l.place_eq code (BlockContext.storePosition code a)
  rw [hblock] at hholds hplace
  have hlength : l.unsubscribe.length = (R.test ++ R.branch :: R.inner).length + 1 := by
    conv_lhs => rw [R.block_eq]
    rw [List.length_append, List.length_singleton]
  -- control falls onto the store from the `nop` at the end of the block in front of it
  obtain ⟨x, i, k, y, hx, hreach, hi, hdoes⟩ := hfalls.reaches
  obtain rfl : x = l.start code (BlockContext.storePosition code a)
      + (R.test ++ R.branch :: R.inner).length := by omega
  rw [R.block_eq] at hholds
  obtain rfl := Option.some.inj (hi.symm.trans hholds.right.head)
  have hmem : ∀ j ∈ R.test ++ R.branch :: R.inner, j ∈ l.unsubscribe := by
    intro j hj
    rw [R.block_eq]
    exact List.mem_append_left _ hj
  have hnop : ∀ j ∈ R.test ++ R.branch :: R.inner, j.op ≠ .nop := by
    intro j hj hop
    rcases List.mem_append.mp hj with hj | hj
    · exact (R.working_test hj).2 (by rw [hop]; rfl)
    · rcases List.mem_cons.mp hj with rfl | hj
      · rw [R.branch_op] at hop
        cases hop
      · exact (R.working_inner hj).2 (by rw [hop]; rfl)
  obtain ⟨k', y', hstart, hskips⟩ := hreach.skips hholds R.branch_op (Nat.zero_le _) hdoes
    (fun j hj => l.untargeted hsettled hlabels hanchored
      (l.mem_subscription hanchored (.inl (hmem j hj))) (hnop j hj))
    (fun n i hi htarget hbent => branch_of_last hsettled hanchored hlabels P R hhead hi htarget hbent)
  obtain ⟨hthis', hhooks, fields', hr'⟩ := hstart.receiver hthis hr
  rw [R.test_ops, R.inner_ops] at hskips
  obtain ⟨rfl, hoffers⟩ := hskips.offers (hhooks ▸ hsubscribes) hreference hthis' hr'
  exact ⟨y', hstart, hoffers⟩

include ha in
/-- A run that is at the first store is still in it or in the code behind it, or has offered a handler to
the new value. -/
theorem offers_behind (P : ctx.Parts field handler add l.subscribe)
    (hfresh : ∀ i ∈ code, ∀ n, serial ≤ n → i.label ≠ .drawn n)
    (hsubscribes : m.Subscribes s.hooks P.equals P.handlerConstructor handler add comparer handles
      accesses handlerType)
    (hreach : (⟨m, d⟩ : Site).Reaches (Action.invokeAt m bound) (l.weave code)
      (l.place code (BlockContext.storePosition code a)) f s q h z) :
    (l.place code (BlockContext.storePosition code a) ≤ q
        ∧ q < l.start code a + l.subscribe.length)
      ∨ ∃ k x y, (⟨m, d⟩ : Site).Runs (Action.invokeAt m bound) ((firstStore code a).map (·.op)) f s k x
        ∧ (⟨m, d⟩ : Site).Offers (Action.invokeAt m bound) P.equals handler add comparer handles
          accesses handlerType field r x y
        ∧ (⟨m, d⟩ : Site).Reaches (Action.invokeAt m bound) (l.weave code)
          (l.start code a + l.subscribe.length) k y q h z := by
  obtain ⟨hpos, hle⟩ := head_pos hanchored hhead
  obtain ⟨hstore, hplace⟩ := l.holds_store hanchored hhead ha
  have hlength : l.subscribe.length = (P.test ++ P.branch :: P.inner).length + 1 := by
    conv_lhs => rw [P.block_eq]
    rw [List.length_append, List.length_singleton]
  have hholds := l.holds_block hle
  rw [l.block_head hhead hpos] at hholds
  have hholds := hholds.left
  rw [P.block_eq] at hholds
  -- past the store, the run is in the block behind it or has passed through that as well
  rcases hreach.through hstore (straight_firstStore ha) with ⟨hge, hin⟩ | ⟨k, x, hruns, hrest⟩
  · exact .inl ⟨hge, by omega⟩
  rw [hplace] at hrest
  have hlast := lastPosition?_last hanchored hlabels P hhead hfresh
  rcases hrest.passes hholds P.branch_op hlast (fun i hi => (P.working_test hi).1)
      (fun i hi => (P.working_inner hi).1) with ⟨hge, hin⟩ | ⟨k', y, hskips, hbehind⟩
  · exact .inl ⟨by omega, by omega⟩
  · obtain ⟨hthis', hhooks, fields', hr'⟩ :=
      (Site.Reaches.of_runs hruns hstore).receiver hthis hr
    rw [P.test_ops, P.inner_ops] at hskips
    obtain ⟨rfl, hoffers⟩ := hskips.offers (hhooks ▸ hsubscribes) hreference hthis' hr'
    rw [Nat.add_assoc, ← hlength] at hbehind
    exact .inr ⟨k', x, y, hruns, hoffers, hbehind⟩

end Runs

/-- A layout as it stands in a woven module. -/
structure Stands (l : Layout ctx subscription called anchors before) (m : Module) (i : MethodId)
    (d : Method) (body result : Body) : Prop where
  method : m.method? i = some { d with body := some result }
  types : ctx.module.types = m.types
  code : result.code = l.weave body.code
  labels : ∃ count, ((l.injected body.code).map (·.label)).Perm
    ((List.range' ctx.module.serial count).map .drawn)
  anchored : Anchored subscription anchors body.code
  settled : body.code.Settled ctx.module.serial
  slots : result.slots.length ≤ 65536 → ∃ count, l.StoresInto body.code body.slots.length count

namespace Stands

variable {l : Layout ctx subscription called anchors before} {m : Module} {i : MethodId} {d : Method}
  {body result : Body}

theorem untargeted_prologue (h : l.Stands m i d body result) :
    ∀ k ∈ l.prologue, result.code.Untargeted k.label := by
  intro k hk
  obtain ⟨count, hlabels⟩ := h.labels
  rw [h.code]
  exact l.untargeted h.settled hlabels h.anchored (l.mem_injected (.inl hk))
    fun hnop => (l.working_prologue hk).2 (by rw [hnop]; rfl)

theorem untargeted_notification (h : l.Stands m i d body result) {p : Nat} (hp : p ∈ anchors) :
    ∀ k ∈ l.notification p, result.code.Untargeted k.label := by
  intro k hk
  obtain ⟨count, hlabels⟩ := h.labels
  rw [h.code]
  exact l.untargeted h.settled hlabels h.anchored
    (l.mem_injected (.inr ⟨p, h.anchored.inside p hp, l.mem_block_of_notification hp hk⟩))
    fun hnop => (l.working_notification hp hk).2 (by rw [hnop]; rfl)

end Stands

end Layout

/-- The module with the handler, if it can be declared. -/
def BlockContext.declared (ctx : BlockContext) : Module :=
  (ctx.declareHandler.toOption.map (·.2)).getD ctx.module

theorem BlockContext.declareHandler_eq {ctx : BlockContext} {i : MethodId}
    (h : ctx.declareHandler.toOption.map (·.1) = some i) :
    ctx.declareHandler = .ok (i, ctx.declared) := by
  unfold declared
  cases hdeclare : ctx.declareHandler with
  | error e =>
    rw [hdeclare] at h
    cases h
  | ok x =>
    rw [hdeclare] at h
    obtain ⟨j, m⟩ := x
    obtain rfl : j = i := Option.some.inj h
    rfl

namespace Weaving

variable {options : Options} {resolver : Resolver} {type : TypePlan} {plan : PropertyPlan}
  {w w' : Workpiece} {hooks : HookTable}

/-- A setter was woven to follow the changes inside the value of its property, and the module it is in has
what the code of the subscription refers to. -/
structure Following (options : Options) (resolver : Resolver) (type : TypePlan) (plan : PropertyPlan)
    (w w' : Workpiece) (hooks : HookTable) where
  woven : WovenSetter
  setter : MethodId
  method : Method
  body : Body
  field : Field
  event : Event
  add : MethodId
  remove : MethodId
  handler : MethodId
  /-- The module in which the handler is declared and the setter is still the old one. -/
  declared : Module
  equals : MethodId
  handlerConstructor : MethodId
  comparer : Method
  handles : Method
  adds : Method
  removes : Method
  handlerType : Token
  run : (Weaving.setter options resolver type plan).run.run w = (.ok woven, w')
  setter_eq : plan.property.setter = some setter
  method_eq : w.module.method? setter = some method
  body_eq : method.body = some body
  settled : body.code.Settled w.module.serial
  fresh : ∀ i ∈ body.code, ∀ n, w.module.serial ≤ n → i.label ≠ .drawn n
  followed : followed? options type plan w body.code = some (field, event)
  declare : (⟨options, resolver, w.module, type, plan⟩ : BlockContext).declareHandler
    = .ok (handler, declared)
  add_eq : event.add = some add
  remove_eq : event.remove = some remove
  equals_eq : resolver.objectEquals declared = .ok equals
  constructor_eq : resolver.handlerConstructor declared = .ok handlerConstructor
  subscribes : w'.module.Subscribes hooks equals handlerConstructor handler add comparer handles adds
    handlerType
  unsubscribes : w'.module.Subscribes hooks equals handlerConstructor handler remove comparer handles
    removes handlerType

theorem anchors_of_followed {code : Stream} {field : Field} {event : Event}
    (h : followed? options type plan w code = some (field, event)) :
    plan.anchors code = (code.stores field.name, true) := by
  unfold followed? at h
  split at h
  · rename_i backing hbacking hstores
    obtain ⟨_, -, hfield⟩ := Option.map_eq_some_iff.mp h
    obtain ⟨rfl, -⟩ := Prod.mk.inj hfield
    unfold PropertyPlan.anchors at hstores ⊢
    rw [hbacking] at hstores ⊢
    cases hcode : code.stores backing.name with
    | nil =>
      simp only [hcode] at hstores
      exact absurd hstores nofun
    | cons b rest => simp [hcode]
  · cases h

theorem Subscription.kept {ctx : Module → BlockContext} {m m' : Module} {followed : Option (Field × Event)}
    {subscription : Option (Field × Event × MethodId)} (h : Subscription ctx m followed subscription m')
    (hctx : (ctx m).module = m) :
    m.serial ≤ m'.serial ∧ ∀ i d, m.method? i = some d → m'.method? i = some d := by
  cases followed with
  | none =>
    obtain ⟨-, rfl⟩ := h
    exact ⟨Nat.le_refl _, fun _ _ hd => hd⟩
  | some followed =>
    obtain ⟨handler, -, hdeclare⟩ := h
    have hserial := serial_le_declareHandler hdeclare
    rw [hctx] at hserial
    exact ⟨hserial, fun i d hd => method?_declareHandler hdeclare (hctx.symm ▸ hd)⟩

theorem Subscription.anchored {ctx : Module → BlockContext} {m m' : Module} {code : Stream}
    {subscription : Option (Field × Event × MethodId)}
    (h : Subscription ctx m (followed? options type plan w code) subscription m') :
    Layout.Anchored subscription (plan.anchors code).1 code := by
  refine ⟨plan.pairwise_anchors code, fun a ha => PropertyPlan.le_length_of_mem_anchors ha,
    plan.anchors_ne_nil code, fun hsome a ha => PropertyPlan.pos_of_mem_anchors ?_ ha⟩
  cases hfollowed : followed? options type plan w code with
  | none =>
    rw [hfollowed] at h
    rw [h.1] at hsome
    cases hsome
  | some followed => rw [anchors_of_followed hfollowed]

theorem stands_of_setter {woven : WovenSetter} {i : MethodId} {d : Method} {body : Body}
    (hset : plan.property.setter = some i) (hmethod : w.module.method? i = some d)
    (hbody : d.body = some body) (hsettled : body.code.Settled w.module.serial)
    (hrun : (setter options resolver type plan).run.run w = (.ok woven, w')) :
    ∃ m subscription before result, ∃ l : Layout ⟨options, resolver, m, type, plan⟩ subscription
        ((plan.targets.map (hookName ·.name)).filter (w.module.containsCallTo body.code))
        (plan.anchors body.code).1 before,
      Subscription (⟨options, resolver, ·, type, plan⟩) w.module
          (followed? options type plan w body.code) subscription m
        ∧ l.Stands w'.module i d body result := by
  have hbody' : (w.module.method? i).bind (·.body) = some body := by
    rw [hmethod, Option.bind_some, hbody]
  obtain ⟨m, subscription, before, result, l, hsubscription, -, hmodule, hcode, ⟨count, -, hlabels⟩,
    new, hslots, hstores⟩ := laidOut_setter hset hbody' hrun
  obtain ⟨hserial, hkept⟩ := hsubscription.kept rfl
  refine ⟨m, subscription, before, result, l, hsubscription, ?_, ?_, hcode, ⟨count, hlabels⟩, ?_,
    hsettled.mono hserial, fun hfits => ⟨_, hstores hfits⟩⟩
  · rw [hmodule]
    exact Module.method?_setBody (hkept i d hmethod) _
  · rw [hmodule]
    rfl
  · exact hsubscription.anchored

/-- How the woven setter is laid out, and where its first store ends in the unedited code. -/
structure Following.Placed (F : Following options resolver type plan w w' hooks) {called : List String}
    {before : String → Bool → UInt16} (l : Layout ⟨options, resolver, F.declared, type, plan⟩
      (some (F.field, F.event, F.handler)) called (plan.anchors F.body.code).1 before)
    (result : Body) (a : Nat) : Prop where
  stands : l.Stands w'.module F.setter F.method F.body result
  stores : (plan.anchors F.body.code).1 = F.body.code.stores F.field.name
  head : (plan.anchors F.body.code).1.head? = some a
  fresh : ∀ i ∈ F.body.code, ∀ n, F.declared.serial ≤ n → i.label ≠ .drawn n

theorem Following.placed (F : Following options resolver type plan w w' hooks) :
    ∃ called before result a, ∃ l : Layout ⟨options, resolver, F.declared, type, plan⟩
      (some (F.field, F.event, F.handler)) called (plan.anchors F.body.code).1 before,
      F.Placed l result a := by
  obtain ⟨m, subscription, before, result, l, hsubscription, hstands⟩ :=
    stands_of_setter F.setter_eq F.method_eq F.body_eq F.settled F.run
  rw [F.followed] at hsubscription
  obtain ⟨handler, rfl, hdeclare⟩ := hsubscription
  obtain ⟨rfl, rfl⟩ := Prod.mk.inj (Except.ok.inj (hdeclare.symm.trans F.declare))
  obtain ⟨a, hhead⟩ : ∃ a, (plan.anchors F.body.code).1.head? = some a := by
    cases hlist : (plan.anchors F.body.code).1 with
    | nil => exact absurd hlist (plan.anchors_ne_nil F.body.code)
    | cons a rest => exact ⟨a, rfl⟩
  have hserial := serial_le_declareHandler F.declare
  exact ⟨_, before, result, a, l, hstands, by rw [anchors_of_followed F.followed], hhead,
    fun i hi n hn => F.fresh i hi n (Nat.le_trans hserial hn)⟩

/-- A run of the code that falls onto the store at `place` has just offered a handler of the receiver for
removal, from `start` on, and once it is no longer between `place` and `behind` it has run the store
and offered a handler to what the field holds then. -/
def Following.Moves (F : Following options resolver type plan w w' hooks) (c : Site) (code : Stream)
    (store : List Instruction) (start place behind : Nat) : Prop :=
  ∀ (bound : Nat) (f : Frame) (s : Machine) (r : HeapRef) (t : Token) (fields : TokenMap Value),
    f.arguments[0]? = some (.ref r) → s.heap.get? r = some (.object t fields) → s.hooks = hooks →
      ∀ g u, c.FallsOnto (Action.invokeAt c.module bound) code 0 f s place g u →
        (∃ y, c.Reaches (Action.invokeAt c.module bound) code 0 f s start g y
          ∧ c.Offers (Action.invokeAt c.module bound) F.equals F.handler F.remove F.comparer
            F.handles F.removes F.handlerType F.field r y u)
        ∧ ∀ q h z, c.Reaches (Action.invokeAt c.module bound) code place g u q h z →
          (place ≤ q ∧ q < behind)
            ∨ ∃ k x y, c.Runs (Action.invokeAt c.module bound) (store.map (·.op)) g u k x
              ∧ c.Offers (Action.invokeAt c.module bound) F.equals F.handler F.add F.comparer
                F.handles F.adds F.handlerType F.field r x y
              ∧ c.Reaches (Action.invokeAt c.module bound) code behind k y q h z

/-- Only the first store moves the subscription. A run that falls onto it has just taken the handler from
the value of the field, unless that is null, and once the run is behind it, the handler was given to the
new value, unless that is null; in front of the other stores nothing is inserted, and behind them only
the announcements. -/
theorem first_store_follows (F : Following options resolver type plan w w' hooks)
    (hreference : (F.declared.type? F.field.type).any (·.isValue) = false) :
    ∃ called before result a, ∃ l : Layout ⟨options, resolver, F.declared, type, plan⟩
        (some (F.field, F.event, F.handler)) called (plan.anchors F.body.code).1 before,
      (plan.anchors F.body.code).1 = F.body.code.stores F.field.name
        ∧ (F.body.code.stores F.field.name).head? = some a
        ∧ w'.module.method? F.setter = some { F.method with body := some result }
        ∧ result.code = l.weave F.body.code
        ∧ (∀ p, p ≠ a → p ≠ BlockContext.storePosition F.body.code a →
          l.block F.body.code p
            = if p ∈ (plan.anchors F.body.code).1 then l.notification p else [])
        ∧ F.Moves ⟨w'.module, { F.method with body := some result }⟩ result.code
          (Layout.firstStore F.body.code a)
          (l.start F.body.code (BlockContext.storePosition F.body.code a))
          (l.place F.body.code (BlockContext.storePosition F.body.code a))
          (l.start F.body.code a + l.subscribe.length) := by
  obtain ⟨called, before, result, a, l, p⟩ := F.placed
  obtain ⟨count, hlabels⟩ := p.stands.labels
  have ha : a ∈ F.body.code.stores F.field.name := p.stores ▸ List.mem_of_head? p.head
  obtain ⟨add, remove, hadd, hremove, ⟨P⟩, ⟨R⟩⟩ := l.subscription_parts
  obtain rfl := Option.some.inj (hadd.symm.trans F.add_eq)
  obtain rfl := Option.some.inj (hremove.symm.trans F.remove_eq)
  have hP := Except.ok.inj (P.equals_eq.symm.trans F.equals_eq)
  have hP' := Except.ok.inj (P.constructor_eq.symm.trans F.constructor_eq)
  have hR := Except.ok.inj (R.equals_eq.symm.trans F.equals_eq)
  have hR' := Except.ok.inj (R.constructor_eq.symm.trans F.constructor_eq)
  refine ⟨called, before, result, a, l, p.stores, p.stores ▸ p.head, p.stands.method, p.stands.code,
    fun x hx hx' => ?_,
    fun bound f s r t fields hthis hr hhooks g u hfalls => ⟨?_, fun q h z hreach => ?_⟩⟩
  -- the blocks at the other positions hold announcements only
  · have hne : ¬ some (BlockContext.storePosition F.body.code a) = some x := fun h =>
      hx' (Option.some.inj h).symm
    have hne' : ¬ some a = some x := fun h => hx (Option.some.inj h).symm
    unfold Layout.block
    rw [p.head, Option.map_some, if_neg hne, if_neg hne']
    rfl
  · rw [p.stands.code] at hfalls ⊢
    rw [← hR]
    exact Layout.offers_before p.stands.anchored hlabels p.head hreference hthis hr P R p.stands.settled
      (by rw [hhooks, hR, hR']; exact F.unsubscribes) hfalls
  · rw [p.stands.code] at hfalls hreach ⊢
    obtain ⟨x, i, k, y, hx, hfront, hi, hdoes⟩ := hfalls.reaches
    obtain ⟨hthis', hhooks', fields', hr'⟩ := (hfront.next hi hdoes).receiver hthis hr
    rw [← hP]
    exact Layout.offers_behind p.stands.anchored hlabels p.head ha hreference hthis' hr' P p.fresh
      (by rw [hhooks', hhooks, hP, hP']; exact F.subscribes) hreach

end Weaving

/-! ## A tree whose nodes follow their child -/

namespace Sapling

def child : Field := ⟨⟨1⟩, "<Child>k__BackingField", .privateBit, ⟨1⟩⟩

def handlers : Field := ⟨⟨2⟩, Surface.changedEvent, .privateBit, ⟨5⟩⟩

def name : Field := ⟨⟨3⟩, Surface.nameField, .privateBit, ⟨0⟩⟩

def property : Property := ⟨⟨20⟩, "Child", ⟨1⟩, some ⟨0⟩, some ⟨1⟩, []⟩

def changed : Event := ⟨⟨21⟩, Surface.changedEvent, ⟨5⟩, some ⟨2⟩, some ⟨3⟩⟩

theorem changed_add : changed.add = some ⟨2⟩ := rfl

theorem changed_remove : changed.remove = some ⟨3⟩ := rfl

def method (token : UInt32) (name : String) (params : Nat) (owner : TypeId)
    (body : Option Body := none) (returns : Option TypeId := none)
    (modifiers : Modifiers := .hideBySig) : Method where
  token := ⟨token⟩
  name
  access := .publicAccess
  modifiers
  params := List.replicate params ⟨"value", ⟨0⟩⟩
  returns
  owner := some owner
  body

def body (ops : List Op) : Body := .ofCode (ops.mapIdx fun k op => ⟨.written (.ofNat k), op⟩)

/-- A module with the given setter for the child of a node. -/
def module (set : List Op) : Module where
  name := "Sapling"
  types := #[some ⟨⟨10⟩, "System", "Object", .object, true, none, [], [], [⟨5⟩], [], [], []⟩,
    some ⟨⟨11⟩, "", "Node", .classType, false, none, [⟨2⟩, ⟨3⟩], [child, handlers],
      [⟨0⟩, ⟨1⟩, ⟨2⟩, ⟨3⟩, ⟨4⟩], [property], [changed], []⟩,
    some ⟨⟨12⟩, "System.ComponentModel", "INotifyPropertyChanged", .interfaceType, true, none, [], [], [],
      [], [], []⟩,
    some ⟨⟨13⟩, "PropertyChanged", "INotifyPropertyChangedContent", .interfaceType, true, none, [], [], [],
      [], [], []⟩,
    some ⟨⟨14⟩, "System", "MulticastDelegate", .classType, true, none, [], [], [], [], [], []⟩,
    some ⟨⟨15⟩, "System.ComponentModel", "PropertyChangedEventHandler", .classType, true, some ⟨4⟩,
      [], [], [⟨6⟩], [], [], []⟩,
    some ⟨⟨16⟩, "System.ComponentModel", "PropertyChangedEventArgs", .classType, true, none, [],
      [name], [⟨7⟩], [], [], []⟩,
    some ⟨⟨17⟩, "System", "Boolean", .boolean, true, none, [], [], [], [], [], []⟩]
  methods := #[
    some (method 30 "get_Child" 0 ⟨1⟩ (some (body [.ldarg 0, .ldfld child, .ret])) (some ⟨1⟩)),
    some (method 31 "set_Child" 1 ⟨1⟩ (some (body set))),
    some (method 32 (Surface.adder Surface.changedEvent) 1 ⟨1⟩),
    some (method 33 (Surface.remover Surface.changedEvent) 1 ⟨1⟩),
    some (method 34 Surface.raiser 1 ⟨1⟩),
    some (method 35 Surface.equals 2 ⟨0⟩ none (some ⟨7⟩) (Modifiers.hideBySig.union .staticBit)),
    some (method 36 Surface.constructor 2 ⟨5⟩),
    some (method 37 Surface.constructor 1 ⟨6⟩ (some (body [.ldarg 0, .ldarg 1, .stfld name, .ret])))]
  registry := (((Registry.insert {} ⟨11⟩ "Node" ⟨1⟩).insert ⟨16⟩ Surface.eventArgs ⟨6⟩).insert ⟨15⟩
    Surface.eventHandler ⟨5⟩).insert ⟨10⟩ Surface.object ⟨0⟩

def type : TypePlan := { type := ⟨1⟩, invoker := .simple ⟨4⟩ }

def plan : PropertyPlan := { property, backing := some child }

def woven (set : List Op) : Except Error WovenSetter × Workpiece :=
  (Weaving.setter {} .standard type plan).run.run ⟨module set, {}⟩

/-- A machine with two nodes. -/
def machine : Machine :=
  { Machine.withRuntimeMembers with heap := { objects := #[.object ⟨11⟩ .empty, .object ⟨11⟩ .empty] } }

/-- Store the argument. -/
def plain : List Op := [.ldarg 0, .ldarg 1, .stfld child, .ret]

/-- Store the argument, and then nothing. -/
def clearing : List Op :=
  [.ldarg 0, .ldarg 1, .stfld child, .ldarg 0, .ldnull, .stfld child, .ret]

/-- The assignment of a second node to the child of the first one. -/
def set : Except Error Unit × Machine :=
  (Action.setProperty (woven clearing).2.module ⟨1⟩ property (.ref ⟨2⟩)).run.run machine

/-- The comparison of two objects. -/
def comparer : Method :=
  method 35 Surface.equals 2 ⟨0⟩ none (some ⟨7⟩) (Modifiers.hideBySig.union .staticBit)

/-- The handler of the child in the woven module. -/
def handles : Method := ((woven clearing).2.module.method? ⟨8⟩).get (by decide +kernel)

theorem subscribes {accessor : MethodId} {accesses : Method}
    (haccessor : (woven clearing).2.module.method? accessor = some accesses)
    (hshape : accesses.Accesses) :
    (woven clearing).2.module.Subscribes machine.hooks ⟨5⟩ ⟨6⟩ ⟨8⟩ accessor comparer handles accesses
      ⟨15⟩ where
  compares := ⟨by decide +kernel, rfl, by decide, rfl, rfl, RuntimeMember.objectEquals.hook,
    by decide +kernel, rfl⟩
  makes := ⟨method 36 Surface.constructor 2 ⟨5⟩, ⟨5⟩,
    ⟨⟨15⟩, "System.ComponentModel", "PropertyChangedEventHandler", .classType, true, some ⟨4⟩,
      [], [], [⟨6⟩], [], [], []⟩, by decide +kernel, rfl, rfl, by decide +kernel, by decide +kernel, rfl⟩
  handler := (Option.some_get _).symm
  accessor := haccessor
  shape := hshape

theorem woven_clearing : woven clearing = (.ok ⟨[3, 6], 2, some ⟨8⟩⟩, (woven clearing).2) := by
  have hresult : (woven clearing).1 = .ok ⟨[3, 6], 2, some ⟨8⟩⟩ := by decide +kernel
  rw [← hresult]

theorem fresh_body (ops : List Op) (serial : Nat) :
    ∀ j ∈ (body ops).code, ∀ n, serial ≤ n → j.label ≠ .drawn n := by
  intro j hj n _ hlabel
  obtain ⟨k, hk⟩ := List.mem_iff_getElem?.mp hj
  have hops := List.getElem?_mapIdx (l := ops)
    (f := fun k op => (⟨.written (.ofNat k), op⟩ : Instruction)) (i := k)
  obtain ⟨op, -, rfl⟩ := Option.map_eq_some_iff.mp (hops.symm.trans hk)
  cases hlabel

end Sapling

namespace Weaving

open Sapling in
/-- The setter that clears the child again is woven to follow it. -/
def following : Following {} .standard Sapling.type plan ⟨module clearing, {}⟩ (woven clearing).2
    machine.hooks where
  woven := ⟨[3, 6], 2, some ⟨8⟩⟩
  setter := ⟨1⟩
  method := method 31 "set_Child" 1 ⟨1⟩ (some (body clearing))
  body := body clearing
  field := child
  event := changed
  add := ⟨2⟩
  remove := ⟨3⟩
  handler := ⟨8⟩
  declared := (⟨{}, .standard, module clearing, Sapling.type, plan⟩ : BlockContext).declared
  equals := ⟨5⟩
  handlerConstructor := ⟨6⟩
  comparer
  handles
  adds := method 32 (Surface.adder Surface.changedEvent) 1 ⟨1⟩
  removes := method 33 (Surface.remover Surface.changedEvent) 1 ⟨1⟩
  handlerType := ⟨15⟩
  run := woven_clearing
  setter_eq := rfl
  method_eq := rfl
  body_eq := rfl
  settled := Stream.settled_of_no_target _ (by decide +kernel)
  fresh := fresh_body clearing _
  followed := by decide +kernel
  declare := BlockContext.declareHandler_eq (by decide +kernel)
  add_eq := changed_add
  remove_eq := changed_remove
  equals_eq := by decide +kernel
  constructor_eq := by decide +kernel
  subscribes := subscribes (by decide +kernel) ⟨by decide, rfl, rfl⟩
  unsubscribes := subscribes (by decide +kernel) ⟨by decide, rfl, rfl⟩

/-- The body of that setter, woven. -/
def cleared : Body :=
  (((Sapling.woven Sapling.clearing).2.module.method? ⟨1⟩).bind (·.body)).get (by decide +kernel)

theorem cleared_eq : ((Sapling.woven Sapling.clearing).2.module.method? ⟨1⟩).bind (·.body) = some cleared :=
  (Option.some_get _).symm

open Sapling in
/-- Runs of that setter move the subscription around the first store: the handler is taken back from 2 up to
the store, and given behind it up to 27. -/
theorem first_store_follows_clearing :
    (woven clearing).2.module.method? ⟨1⟩
        = some { method 31 "set_Child" 1 ⟨1⟩ (some (body clearing)) with body := some cleared }
      ∧ following.Moves ⟨(woven clearing).2.module,
          { method 31 "set_Child" 1 ⟨1⟩ (some (body clearing)) with body := some cleared }⟩ cleared.code
        (Layout.firstStore (body clearing).code 3) 2 14 27 := by
  have hreference : (following.declared.type? following.field.type).any (·.isValue) = false := by
    decide +kernel
  obtain ⟨called, before, result, a, l, -, hhead, hmethod, hcode, -, hmoves⟩ :=
    first_store_follows following hreference
  have hfirst : ((body clearing).code.stores child.name).head? = some 3 := by decide +kernel
  obtain rfl := Option.some.inj (hfirst.symm.trans hhead)
  have hwhere : (woven clearing).2.module.method? ⟨1⟩
      = some { method 31 "set_Child" 1 ⟨1⟩ (some (body clearing)) with body := some result } := hmethod
  have hcleared : result = cleared :=
    Option.some.inj ((congrArg (·.bind (·.body)) hwhere).symm.trans cleared_eq)
  -- no instruction comes twice, so the old ones are found by what they are
  have hnodup : cleared.code.Nodup := by decide +kernel
  rw [hcleared] at hcode
  have hplace (p x : Nat) := l.place_of_nodup hcode hnodup (p := p) (x := x)
  have hposition : BlockContext.storePosition following.body.code 3 = 2 := by decide +kernel
  have hstore : l.place following.body.code 2 = 14 := hplace 2 14 (by decide) (by decide +kernel)
  have hstart : l.start following.body.code 2 = 2 := by
    rw [l.start_succ, hplace 1 1 (by decide) (by decide +kernel)]
  have hbehind : l.start following.body.code 3 + l.subscribe.length = 27 := by
    obtain ⟨add, -, hgiven⟩ : ∃ add, following.event.add = some add
      ∧ BlockContext.Subscribes _ following.field following.handler add l.subscribe := l.subscribe_ops
    rw [l.start_succ, hstore, hgiven.length_eq, hreference]
    rfl
  rw [hposition, hstart, hstore, hbehind] at hmoves
  rw [← hcleared]
  exact ⟨hwhere, hmoves⟩

open Sapling in
/-- The second store takes the child away, and nobody takes the handler from it. -/
theorem second_store_not_followed :
    (woven clearing).1 = .ok ⟨[3, 6], 2, some ⟨8⟩⟩ ∧ set.1 = .ok ()
      ∧ .subscribed ⟨2⟩ (some ⟨1⟩) ∈ set.2.trace.toList
      ∧ .unsubscribed ⟨2⟩ (some ⟨1⟩) ∉ set.2.trace.toList
      ∧ (set.2.heap.getField ⟨1⟩ child.token).toOption = some (some .null) := by
  refine ⟨?_, ?_, ?_, ?_, ?_⟩ <;> decide +kernel

end Weaving

end SetterLoom
