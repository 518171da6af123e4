import SetterLoom.Proofs.Weave.Followed
import SetterLoom.Proofs.Weave.Preserved

/-!
# Which values a call gets

A call that takes the values before and after a change finds both in slots. The value after was read right
in front of the call; the value before was read on entry, into a slot that nothing else stores to. So
whatever a run did in between, it passes the value the field had on entry and the value it has now.

* `passed_of_runs`: the code in front of such a call.
* `values_passed`: runs of a woven setter.
-/

namespace SetterLoom
set_option autoImplicit false

/-- The property is an auto property of the field, and its getter is the one that is found on objects of
the type. -/
structure Property.AutoOn (p : Property) (field : Field) (m : Module) (hooks : HookTable)
    (type : Token) : Prop where
  getter : ∃ t i d, p.getter = some i ∧ m.method? i = some d ∧ d.name = Surface.getter p.name
    ∧ d.returns = some p.type ∧ d.Loads field ∧ hooks.find? (⟨m, d⟩ : Site).callName = none
    ∧ m.registry.get? type = some t ∧ m.methodInLine? t d.name = some i

namespace Property.AutoOn

variable {p q : Property} {field field' : Field} {m : Module} {hooks : HookTable} {type : Token}

theorem readsFrom (h : p.AutoOn field m hooks type) : p.ReadsFrom field m hooks type := by
  obtain ⟨t, i, d, hgetter, hd, -, hreturns, hloads, hhook, ht, hline⟩ := h.getter
  have hreached : m.reached type i d = i := by
    unfold Module.reached
    rw [ht]
    dsimp only
    rw [hline, Option.filter_some, hd]
    simp [hloads.isInstance]
  refine ⟨i, d, d, hgetter, hd, hloads.isInstance, ?_, hloads.noParams, ?_, hloads, hhook⟩
  · rw [hreturns]
    rfl
  · rw [hreached, hd]

/-- Auto properties of one name have one getter, so they have one field and one type. -/
theorem same (h : p.AutoOn field m hooks type) (h' : q.AutoOn field' m hooks type)
    (hname : p.name = q.name) : field = field' ∧ p.type = q.type := by
  obtain ⟨t, i, d, -, hd, hdname, hreturns, hloads, -, ht, hline⟩ := h.getter
  obtain ⟨t', i', d', -, hd', hdname', hreturns', hloads', -, ht', hline'⟩ := h'.getter
  obtain rfl := Option.some.inj (ht.symm.trans ht')
  rw [hdname, hname, ← hdname'] at hline
  obtain rfl := Option.some.inj (hline.symm.trans hline')
  obtain rfl := Option.some.inj (hd.symm.trans hd')
  obtain ⟨body, hbody, hcode⟩ := hloads.code
  obtain ⟨body', hbody', hcode'⟩ := hloads'.code
  obtain rfl := Option.some.inj (hbody.symm.trans hbody')
  refine ⟨?_, Option.some.inj (hreturns.symm.trans hreturns')⟩
  have hops := hcode.symm.trans hcode'
  simp only [List.cons_append, List.cons.injEq] at hops
  obtain ⟨-, hload, -⟩ := hops
  unfold Op.ldfld at hload
  simpa using hload

end Property.AutoOn

namespace BlockContext

variable {ctx : BlockContext} {target : Property} {c : Site} {bound : Nat} {f g h : Frame}
  {s t u : Machine} {r : HeapRef} {type : Token} {fields : TokenMap Value} {field : Field}
  {slot : UInt16} {boxed : Bool}

/-! ## Reading -/

theorem get_of_runs {ops : List Op} (hreads : target.ReadsFrom field c.module s.hooks type)
    (hr : s.heap.get? r = some (.object type fields)) (hthis : f.arguments[0]? = some (.ref r))
    (hruns : c.Runs (Action.invokeAt c.module bound)
      ([.ldarg 0] ++ target.getter.toList.map Op.callvirt ++ ops) f s h u) :
    ∃ x, s.Extends c.module x []
      ∧ c.Runs (Action.invokeAt c.module bound) ops (f.push (c.fieldValue fields field)) x h u := by
  obtain ⟨i, d, e, hgetter, hd, hinstance, hresult, hparams, he, hloads, hhook⟩ := hreads.getter
  rw [hgetter] at hruns
  obtain ⟨-, hcall⟩ := (Site.runs_plain (Site.plain_ldarg hthis)).mp hruns
  have hcount : ([] : List Value).length = d.params.length := by
    rw [hparams]
    rfl
  obtain ⟨-, v, x, hget, hrest⟩ := (Site.runs_callvirt (s := s.spent 1) (g := f)
    (rfl : Op.callvirt i = ⟨.callvirt, .method ⟨i, []⟩⟩) hd hinstance hcount rfl hr).mp hcall
  rw [if_pos hresult] at hrest
  cases bound with
  | zero => cases (Prod.mk.inj hget).1
  | succ bound =>
    obtain ⟨-, -, rfl, rfl⟩ :=
      (Action.getter_run (s := (s.spent 1).spent 1) he hloads hhook hr).mp hget
    exact ⟨_, ((Machine.Extends.refl c.module s).spent 2).trans (Machine.extends_getter he 3), hrest⟩

theorem stloc_of_runs {ops : List Op} {v : Value} {call : Call}
    (hruns : c.Runs call (.stloc slot :: ops) (f.push v) s h u) :
    slot.toNat < f.slots.length
      ∧ c.Runs call ops { f with slots := f.slots.set slot.toNat v } (s.spent 1) h u := by
  have hin : slot.toNat < f.slots.length := by
    obtain ⟨g, t, hdoes, -⟩ := Site.runs_cons.mp hruns
    have hstore : (c.storeSlot (f.push v) slot.toNat).run.run { s with executed := s.executed + 1 }
        = (.ok (.next g), t) := hdoes.2
    unfold Site.storeSlot at hstore
    rw [Action.bind_run] at hstore
    by_contra hout
    have hnone : (if slot.toNat < f.slots.length then
        pure (Step.next { f with slots := f.slots.set slot.toNat v }) else c.unexpected .stloc
          : Action Step).run.run { s with executed := s.executed + 1 } = (.ok (.next g), t) := hstore
    rw [if_neg hout] at hnone
    cases (Prod.mk.inj hnone).1
  exact ⟨hin, ((Site.runs_plain (Site.plain_stloc hin)).mp hruns).2⟩

theorem read_of_runs (htypes : ctx.module.types = c.module.types)
    (hreads : target.ReadsFrom field c.module s.hooks type)
    (hr : s.heap.get? r = some (.object type fields)) (hthis : f.arguments[0]? = some (.ref r))
    (hruns : c.Runs (Action.invokeAt c.module bound) (ctx.readOps target boxed slot) f s g t) :
    ∃ v, g = { f with slots := f.slots.set slot.toNat v } ∧ slot.toNat < f.slots.length
      ∧ s.Extends c.module t []
      ∧ t.heap.Shows c.module target.type boxed (c.fieldValue fields field) v := by
  have hvalue : (ctx.module.type? target.type).any (·.isValue)
      = (c.module.type? target.type).any (·.isValue) := by
    rw [Module.type?_of_types htypes]
  unfold readOps at hruns
  simp only [hvalue] at hruns
  rw [List.append_assoc] at hruns
  obtain ⟨x, hx, hrest⟩ := get_of_runs hreads hr hthis hruns
  -- the value is boxed first if it is wanted as an object
  by_cases hboxing : boxed && (c.module.type? target.type).any (·.isValue)
  · rw [if_pos hboxing] at hrest
    rw [Bool.and_eq_true, Option.any_eq_true] at hboxing
    obtain ⟨rfl, d, hd, hisValue⟩ := hboxing
    obtain ⟨-, hstored⟩ := (Site.runs_cons_of_step (Site.step_box hd hisValue)).mp hrest
    obtain ⟨hin, hdone⟩ := stloc_of_runs hstored
    obtain ⟨rfl, rfl⟩ := Site.runs_nil.mp hdone
    exact ⟨_, rfl, hin, ((hx.spent 1).push _).spent 1, Heap.shows_box hd hisValue _ _⟩
  · rw [if_neg hboxing] at hrest
    obtain ⟨hin, hdone⟩ := stloc_of_runs hrest
    obtain ⟨rfl, rfl⟩ := Site.runs_nil.mp hdone
    exact ⟨_, rfl, hin, hx.spent 1, Heap.shows_self hboxing _ _⟩

theorem entry_of_runs {before : String → Bool → UInt16} {fieldOf : Property → Field}
    (readings : List Reading) (htypes : ctx.module.types = c.module.types)
    (hreads : ∀ q ∈ readings, q.1.ReadsFrom (fieldOf q.1) c.module s.hooks type)
    (hr : s.heap.get? r = some (.object type fields)) (hthis : f.arguments[0]? = some (.ref r))
    (hnodup : (readings.map fun q => before q.1.name q.2).Nodup)
    (hruns : c.Runs (Action.invokeAt c.module bound)
      (readings.flatMap fun q => ctx.readOps q.1 q.2 (before q.1.name q.2)) f s g t) :
    f.Beside (readings.map fun q => before q.1.name q.2) g ∧ s.Extends c.module t []
      ∧ ∀ q ∈ readings, ∃ v, g.slots[(before q.1.name q.2).toNat]? = some v
        ∧ t.heap.Shows c.module q.1.type q.2 (c.fieldValue fields (fieldOf q.1)) v := by
  -- the slots have different names, so later values leave the first one where it is
  induction readings generalizing f s with
  | nil =>
    obtain ⟨rfl, rfl⟩ := Site.runs_nil.mp hruns
    exact ⟨.refl _, .refl _ _, fun q hq => absurd hq List.not_mem_nil⟩
  | cons q rest ih =>
    rw [List.map_cons, List.nodup_cons] at hnodup
    rw [List.flatMap_cons] at hruns
    obtain ⟨k, x, hread, hrest⟩ := Site.runs_append.mp hruns
    obtain ⟨v, rfl, hslot, hx, hshows⟩ :=
      read_of_runs htypes (hreads q List.mem_cons_self) hr hthis hread
    obtain ⟨hbeside, ht, hall⟩ := ih (f := { f with slots := f.slots.set (before q.1.name q.2).toNat v })
      (fun q' hq' => hx.hooks ▸ hreads q' (List.mem_cons_of_mem _ hq')) (hx.heap r _ hr) hthis
      hnodup.2 hrest
    refine ⟨(Frame.Beside.set f _ v).trans hbeside, hx.trans ht, fun q' hq' => ?_⟩
    rcases List.mem_cons.mp hq' with rfl | hmem
    · exact ⟨v, hbeside.slot_of_set hslot hnodup.1, hshows.later ht.heap⟩
    · exact hall q' hmem

end BlockContext

/-- A value that a box holds stays in it. -/
theorem Heap.Shows.of_later {s t : Machine} {m : Module} {type : TypeId} {boxed : Bool} {v v' : Value}
    (h : s.heap.Shows m type boxed v v') (hlater : s.Later t) : t.heap.Shows m type boxed v v' := by
  unfold Heap.Shows at h ⊢
  cases hvalue : (m.type? type).filter fun d => boxed && d.isValue with
  | none =>
    rw [hvalue] at h
    exact h
  | some d =>
    rw [hvalue] at h
    obtain ⟨q, rfl, hq⟩ := h
    obtain ⟨o, ho, hkept⟩ := hlater.objects q _ hq
    cases hkept
    exact ⟨q, rfl, ho⟩

/-! ## The calls -/

/-- A call that gets the values of a target before and after the change, behind the receiver and maybe
the name of the target. -/
structure ValueCall where
  target : Property
  /-- The values are passed as objects. -/
  boxed : Bool
  name : Option String
  call : Op
  deriving DecidableEq, Repr

namespace ValueCall

/-- The code in front of the call. -/
def frontOps (v : ValueCall) (ctx : BlockContext) (before after : UInt16) : List Op :=
  ctx.readOps v.target v.boxed after
    ++ ([.ldarg 0] ++ v.name.toList.map Op.ldstr ++ [.ldloc before, .ldloc after])

/-- The stack has what the call gets for a change from the first value to the second one. -/
def Gets (v : ValueCall) (m : Module) (heap : Heap) (r : HeapRef) (before after : Value)
    (stack : List Value) : Prop :=
  ∃ a b named rest, stack = a :: b :: named ++ .ref r :: rest
    ∧ heap.Shows m v.target.type v.boxed before b ∧ heap.Shows m v.target.type v.boxed after a
    ∧ List.Forall₂ (fun text x => ∃ q, x = .ref q ∧ heap.get? q = some (.string text)) v.name.toList named

end ValueCall

namespace BlockContext

variable {ctx : BlockContext} {called : List String}

/-- The calls for a target that get its values. -/
def valueCalls (ctx : BlockContext) (called : List String) (t : Property) : List ValueCall :=
  let hook : List ValueCall :=
    match ctx.hookFor? called t with
    | some (.beforeAfter i) => [⟨t, true, none, .callvirt i⟩]
    | some (.noArguments _) | none => []
  hook ++ if ctx.property.announces t.name then [] else
    ctx.type.invoker.valueForm?.toList.map fun boxed =>
      ⟨t, boxed, some t.name, ctx.callOp ctx.type.invoker.method t⟩

theorem mem_readings_of_valueCall {t : Property} {v : ValueCall}
    (ht : t ∈ ctx.property.targets) (hv : v ∈ ctx.valueCalls called t) :
    v.target = t ∧ (t, v.boxed) ∈ ctx.targetsReadings called ctx.property.targets := by
  suffices h : v.target = t ∧ v.boxed ∈ ctx.targetForms called t from
    ⟨h.1, List.mem_flatMap.mpr ⟨t, ht, List.mem_map.mpr ⟨v.boxed, h.2, rfl⟩⟩⟩
  unfold valueCalls at hv
  unfold targetForms
  rcases List.mem_append.mp hv with hhook | hcall
  · split at hhook
    · rename_i i hfor
      rw [List.mem_singleton.mp hhook, hfor]
      exact ⟨rfl, List.mem_append_left _ (List.mem_singleton_self _)⟩
    · exact absurd hhook List.not_mem_nil
    · exact absurd hhook List.not_mem_nil
  · split at hcall
    · exact absurd hcall List.not_mem_nil
    · rename_i hannounces
      obtain ⟨boxed, hboxed, rfl⟩ := List.mem_map.mp hcall
      refine ⟨rfl, List.mem_append_right _ ?_⟩
      rw [if_neg hannounces, invokerForms_eq]
      exact hboxed

/-- The code for a target has each call behind the code that gets its values. -/
theorem targetOps_of_valueCall {t : Property} {v : ValueCall} (before : String → Bool → UInt16)
    (after : AfterSlots) (hv : v ∈ ctx.valueCalls called t) :
    ∃ slot front back, ctx.targetOps called before t after
      = front ++ (v.frontOps ctx (before t.name v.boxed) slot ++ v.call :: back) := by
  unfold valueCalls at hv
  unfold targetOps
  -- the call of the hook comes first, and the one of the invoker last
  rcases List.mem_append.mp hv with hhook | hcall
  · split at hhook
    · rename_i i hfor
      obtain rfl := List.mem_singleton.mp hhook
      rw [hfor]
      refine ⟨after.hook, [], if ctx.property.announces t.name then [] else
        ctx.announceOps t before after.call, ?_⟩
      simp [hookOps, ValueCall.frontOps]
    · exact absurd hhook List.not_mem_nil
    · exact absurd hhook List.not_mem_nil
  · split at hcall
    · exact absurd hcall List.not_mem_nil
    · rename_i hannounces
      obtain ⟨boxed, hboxed, rfl⟩ := List.mem_map.mp hcall
      have hform : ctx.type.invoker.valueForm? = some boxed := by simpa using hboxed
      refine ⟨after.call, (ctx.hookFor? called t).elim [] (ctx.hookOps t · before after.hook), [], ?_⟩
      rw [if_neg hannounces]
      congr 1
      cases hinvoker : ctx.type.invoker with
      | simple i | arguments i k | senderAndArguments i k =>
        rw [hinvoker] at hform
        cases hform
      | beforeAfter i | typedBeforeAfter i =>
        rw [hinvoker] at hform
        obtain rfl := Option.some.inj hform
        simp [announceOps, hinvoker, ValueCall.frontOps]

theorem changeOps_of_valueCall {t : Property} {v : ValueCall} (before : String → Bool → UInt16)
    {after : List AfterSlots} (ht : t ∈ ctx.property.targets) (hv : v ∈ ctx.valueCalls called t)
    (hlength : after.length = ctx.property.targets.length) :
    ∃ slot front back, ctx.changeOps called before after
      = front ++ (v.frontOps ctx (before t.name v.boxed) slot ++ v.call :: back) := by
  obtain ⟨n, hn, rfl⟩ := List.getElem_of_mem ht
  have hn' : n < after.length := by omega
  have hmem : (ctx.property.targets[n], after[n]) ∈ ctx.property.targets.zip after := by
    refine List.mem_iff_getElem.mpr ⟨n, by rw [List.length_zip]; omega, ?_⟩
    rw [List.getElem_zip]
  obtain ⟨front, back, hsplit⟩ := List.append_of_mem hmem
  obtain ⟨slot, front', back', hops⟩ := targetOps_of_valueCall before after[n] hv
  refine ⟨slot, ctx.dirtyFlagOps ++ (front.flatMap fun t => ctx.targetOps called before t.1 t.2) ++ front',
    back' ++ back.flatMap fun t => ctx.targetOps called before t.1 t.2, ?_⟩
  unfold changeOps targetsOps
  rw [hsplit, List.flatMap_append, List.flatMap_cons, hops]
  simp only [List.append_assoc, List.cons_append]

/-- Behind the code in front of a call the stack has what the call gets. -/
theorem passed_of_runs {v : ValueCall} {c : Site} {bound : Nat} {f g : Frame} {s t : Machine} {r : HeapRef}
    {type : Token} {fields : TokenMap Value} {field : Field} {k slot : UInt16} {b : Value}
    (htypes : ctx.module.types = c.module.types)
    (hreads : v.target.ReadsFrom field c.module s.hooks type)
    (hr : s.heap.get? r = some (.object type fields)) (hthis : f.arguments[0]? = some (.ref r))
    (hb : f.slots[k.toNat]? = some b) (hapart : slot.toNat ≠ k.toNat)
    (hruns : c.Runs (Action.invokeAt c.module bound) (v.frontOps ctx k slot) f s g t) :
    s.Extends c.module t [] ∧ ∃ a named, g.stack = a :: b :: named ++ .ref r :: f.stack
      ∧ t.heap.Shows c.module v.target.type v.boxed (c.fieldValue fields field) a
      ∧ List.Forall₂ (fun text x => ∃ q, x = .ref q ∧ t.heap.get? q = some (.string text))
        v.name.toList named := by
  obtain ⟨h, x, hread, hrest⟩ := Site.runs_append.mp hruns
  obtain ⟨a, rfl, hslot, hx, hshows⟩ := read_of_runs htypes hreads hr hthis hread
  have hbefore : (f.slots.set slot.toNat a)[k.toNat]? = some b := by
    rw [List.getElem?_set_ne hapart, hb]
  have hafter : (f.slots.set slot.toNat a)[slot.toNat]? = some a := List.getElem?_set_self hslot
  obtain ⟨-, hrest⟩ := (Site.runs_plain (Site.plain_ldarg (k := 0) (v := .ref r)
    (f := { f with slots := f.slots.set slot.toNat a }) hthis)).mp hrest
  -- the two loads at the end, behind what was pushed before
  have hloads : ∀ {h : Frame} {y : Machine}, h.slots = f.slots.set slot.toNat a →
      c.Runs (Action.invokeAt c.module bound) [.ldloc k, .ldloc slot] h y g t →
        g.stack = a :: b :: h.stack ∧ t = y.spent 2 := by
    intro h y hsame hloads
    obtain ⟨-, hloads⟩ := (Site.runs_plain (Site.plain_ldloc (hsame ▸ hbefore))).mp hloads
    obtain ⟨-, hloads⟩ := (Site.runs_plain (Site.plain_ldloc (f := h.push b) (v := a)
      (show h.slots[slot.toNat]? = some a from hsame ▸ hafter))).mp hloads
    obtain ⟨rfl, rfl⟩ := Site.runs_nil.mp hloads
    exact ⟨rfl, rfl⟩
  cases hname : v.name with
  | none =>
    rw [hname] at hrest
    obtain ⟨hstack, rfl⟩ := hloads rfl hrest
    exact ⟨(hx.spent 1).spent 2, a, [], hstack, hshows, .nil⟩
  | some text =>
    rw [hname] at hrest
    obtain ⟨-, hrest⟩ := (Site.runs_cons_of_step (Site.step_ldstr text)).mp hrest
    obtain ⟨hstack, rfl⟩ := hloads rfl hrest
    have hy := ((hx.spent 1).spent 1).push (.string text)
    refine ⟨hy.spent 2, a, [.ref x.heap.next], hstack, ?_, .cons ⟨_, rfl, ?_⟩ .nil⟩
    · exact hshows.later fun q o hq => (Machine.Extends.refl c.module x).push (.string text) |>.heap q o hq
    · exact x.heap.get?_push_new _

end BlockContext

namespace Layout

variable {ctx : BlockContext} {subscription : Option (Field × Event × MethodId)}
  {called : List String} {anchors : List Nat} {before : String → Bool → UInt16}
  (l : Layout ctx subscription called anchors before) {code : Stream} {p x : Nat} {v : ValueCall}

/-- The call stands at the place in the announcements behind an anchor, behind the code that gets its
values. -/
def CallAt (code : Stream) (p : Nat) (v : ValueCall) (x : Nat) : Prop :=
  ∃ slot front back, (l.notification p).map (·.op)
      = front ++ (v.frontOps ctx (before v.target.name v.boxed) slot ++ v.call :: back)
    ∧ x + back.length + 1 = l.place code p

theorem holds_notification (hp : p ∈ anchors) (hle : p ≤ code.length) :
    ∃ y, l.prologue.length ≤ y ∧ y + (l.notification p).length = l.place code p
      ∧ (l.weave code).Holds y (l.notification p) := by
  have hholds := l.holds_block hle
  have hplace := l.place_eq code p
  have hstart := l.length_prologue_le_start code p
  unfold block at hholds hplace
  rw [if_pos hp] at hholds hplace
  rw [List.length_append] at hplace
  exact ⟨_, Nat.le_trans hstart (Nat.le_add_right _ _), by omega, hholds.right⟩

theorem exists_callAt {t : Property} (hp : p ∈ anchors) (hle : p ≤ code.length)
    (ht : t ∈ ctx.property.targets) (hv : v ∈ ctx.valueCalls called t) :
    ∃ x, l.CallAt code p v x := by
  obtain ⟨after, hlength, hops⟩ := l.notification_ops p hp
  obtain ⟨slot, front, back, hsplit⟩ := BlockContext.changeOps_of_valueCall before ht hv hlength
  obtain ⟨rfl, -⟩ := BlockContext.mem_readings_of_valueCall ht hv
  obtain ⟨y, -, hplace, -⟩ := l.holds_notification hp hle
  have hcount := congrArg List.length (hops.trans hsplit)
  simp only [List.length_map, List.length_append, List.length_cons] at hcount
  exact ⟨l.place code p - back.length - 1, slot, front, back, hops.trans hsplit, by omega⟩

theorem CallAt.holds (h : l.CallAt code p v x) (hp : p ∈ anchors) (hle : p ≤ code.length) :
    ∃ y slot block i, y + block.length = x ∧ l.prologue.length ≤ y ∧ (l.weave code).Holds y block
      ∧ (l.weave code)[x]? = some i ∧ i.op = v.call ∧ i ∈ l.notification p
      ∧ (∀ j ∈ block, j ∈ l.notification p)
      ∧ block.map (·.op) = v.frontOps ctx (before v.target.name v.boxed) slot := by
  obtain ⟨slot, front, back, hops, hx⟩ := h
  obtain ⟨y, hy, hplace, hholds⟩ := l.holds_notification hp hle
  obtain ⟨front', rest, hsplit, rfl, hrest⟩ := List.map_eq_append_iff.mp hops
  obtain ⟨block, rest', rfl, hblock, hrest'⟩ := List.map_eq_append_iff.mp hrest
  obtain ⟨i, back', rfl, hcall, rfl⟩ := List.map_eq_cons_iff.mp hrest'
  rw [hsplit] at hholds hplace
  simp only [List.length_append, List.length_cons, List.length_map] at hplace hx
  have hx : x = y + front'.length + block.length := by omega
  refine ⟨y + front'.length, slot, block, i, hx.symm, by omega, hholds.right.left, ?_, hcall, ?_,
    fun j hj => ?_, hblock⟩
  · rw [hx]
    exact hholds.right.right.head
  · rw [hsplit]
    simp
  · rw [hsplit]
    simp [hj]

/-! ## The slots -/

section Slots

variable {l} {first count : Nat} (hstores : l.StoresInto code first count) {q : Reading}
  (hq : q ∈ ctx.targetsReadings called ctx.property.targets)
include hstores hq

/-- Nothing behind the prologue stores to the slot of a value before the change. -/
theorem apart_entry {n : UInt16} {i : Instruction}
    (hinside : ∀ j ∈ code, ∀ n : UInt16, j.op = .stloc n → n.toNat < first)
    (hi : i ∈ code.interleave (l.block code)) (hop : i.op = .stloc n) :
    n.toNat ≠ (before q.1.name q.2).toNat := by
  rw [Stream.interleave_eq_flatMap] at hi
  obtain ⟨p, hp, hmem⟩ := List.mem_flatMap.mp hi
  rcases List.mem_append.mp hmem with hblock | hcode
  · have hinjected : i ∈ code.injected (l.block code) := List.mem_flatMap.mpr ⟨p, hp, hblock⟩
    exact apart_of_mem_injected hstores hq (List.mem_filterMap.mpr
      ⟨i.op, List.mem_map_of_mem hinjected, by rw [hop]; rfl⟩)
  · have hi' : i ∈ code := List.mem_of_getElem? (Option.mem_toList.mp hcode)
    have := hinside i hi' n hop
    have := (entry_inside hstores hq).1
    omega

end Slots

end Layout

/-- Runs of the code that come to the call pass what the field of the target had on entry and what it has
there. -/
def ValueCall.Passes (v : ValueCall) (c : Site) (code : Stream) (targets : List Property) (x : Nat) :
    Prop :=
  ∀ (bound : Nat) (f g : Frame) (s u : Machine) (r : HeapRef) (type : Token) (fields : TokenMap Value)
    (fieldOf : Property → Field),
    f.arguments[0]? = some (.ref r) → s.heap.get? r = some (.object type fields) →
    (∀ t ∈ targets, t.AutoOn (fieldOf t) c.module s.hooks type) →
    c.Reaches (Action.invokeAt c.module bound) code 0 f s x g u →
    ∃ fields', u.heap.get? r = some (.object type fields')
      ∧ v.Gets c.module u.heap r (c.fieldValue fields (fieldOf v.target))
        (c.fieldValue fields' (fieldOf v.target)) g.stack

namespace Layout

variable {ctx : BlockContext} {subscription : Option (Field × Event × MethodId)}
  {called : List String} {anchors : List Nat} {before : String → Bool → UInt16}

variable {l : Layout ctx subscription called anchors before} {m : Module} {i : MethodId}
  {d : Method} {body result : Body} {p x : Nat} {t : Property} {v : ValueCall}

/-- The values before are still in their slots at a call, and the values after were just read. -/
theorem Stands.passes (h : l.Stands m i d body result) (hfits : result.slots.length ≤ 65536)
    (hinside : ∀ j ∈ body.code, ∀ n : UInt16, j.op = .stloc n → n.toNat < body.slots.length)
    (hp : p ∈ anchors) (ht : t ∈ ctx.property.targets) (hv : v ∈ ctx.valueCalls called t)
    (hat : l.CallAt body.code p v x) :
    v.Passes ⟨m, { d with body := some result }⟩ result.code ctx.property.targets x := by
  intro bound f g s u r type fields fieldOf hthis hr hauto hreach
  obtain ⟨count, hstores⟩ := h.slots hfits
  obtain ⟨rfl, hreading⟩ := BlockContext.mem_readings_of_valueCall ht hv
  obtain ⟨y, slot, block, j, rfl, hy, hholds, hj, hjop, hjmem, hblock, hops⟩ :=
    hat.holds l hp (h.anchored.inside p hp)
  have hcode := h.code
  unfold weave at hcode
  have hle := h.anchored.inside p hp
  have hmem : ∀ q ∈ firstReadings (ctx.targetsReadings called ctx.property.targets),
      q.1 ∈ ctx.property.targets := by
    intro q hq
    obtain ⟨t, ht, hform⟩ := List.mem_flatMap.mp (mem_of_mem_firstReadings hq)
    obtain ⟨_, -, rfl⟩ := List.mem_map.mp hform
    exact ht
  -- on entry
  obtain ⟨hlt, -⟩ | ⟨-, h₀, u₀, hentry, hrest⟩ :=
    hreach.entered hcode h.untargeted_prologue fun k hk => (l.working_prologue hk).1
  · omega
  rw [l.prologue_ops] at hentry
  have hreads := fun q hq => (hauto q.1 (hmem q hq)).readsFrom
  obtain ⟨hbeside, hu₀, hvalues⟩ := BlockContext.entry_of_runs _ h.types hreads hr hthis (nodup_entry hstores) hentry
  obtain ⟨q, hq, hkey⟩ := List.mem_map.mp (mem_keys_firstReadings hreading)
  obtain ⟨hname, hboxed⟩ := Prod.mk.inj hkey
  obtain ⟨b, hb, hshows⟩ := hvalues q hq
  obtain ⟨hfield, htype⟩ := (hauto q.1 (hmem q hq)).same (hauto v.target ht) hname
  rw [hname, hboxed] at hb
  rw [hfield, htype, hboxed] at hshows
  -- in front of the call
  rw [← h.code] at hholds hj
  obtain ⟨h₁, u₁, hmiddle, hruns⟩ := hrest.ran hy hholds (fun k hk => h.untargeted_notification hp k (hblock k hk))
    fun k hk => by
      obtain rfl := Option.some.inj (hk.symm.trans hj)
      exact h.untargeted_notification hp k hjmem
  rw [hops] at hruns
  obtain ⟨-, hkept⟩ := hmiddle.slot_kept hcode h.untargeted_prologue
    (k := (before v.target.name v.boxed).toNat)
    fun i hi n hop => apart_entry hstores hreading hinside hi hop
  have hthis₀ : h₀.arguments[0]? = some (.ref r) := hbeside.arguments ▸ hthis
  obtain ⟨hthis₁, hhooks, fields', hr₁⟩ := hmiddle.receiver hthis₀ (hu₀.heap r _ hr)
  have hapart : slot.toNat ≠ (before v.target.name v.boxed).toNat := by
    have hslot : slot ∈ storedSlots (block.map (·.op)) := by
      rw [hops, ValueCall.frontOps, storedSlots_append, BlockContext.storedSlots_readOps]
      exact List.mem_cons_self
    obtain ⟨op, hop, hstored⟩ := List.mem_filterMap.mp hslot
    obtain ⟨k, hk, rfl⟩ := List.mem_map.mp hop
    exact apart_of_mem_injected hstores hreading (List.mem_filterMap.mpr ⟨k.op,
      List.mem_map_of_mem (List.mem_flatMap.mpr ⟨p, List.mem_range.mpr (Nat.lt_succ_of_le hle),
        l.mem_block_of_notification hp (hblock k hk)⟩), hstored⟩)
  obtain ⟨hu, a, named, hstack, hafter, hnamed⟩ := BlockContext.passed_of_runs h.types
    (hhooks ▸ hu₀.hooks ▸ (hauto v.target ht).readsFrom) hr₁ hthis₁ (hkept.trans hb) hapart hruns
  exact ⟨fields', hu.heap r _ hr₁, a, b, named, h₁.stack, hstack,
    (hshows.of_later hmiddle.later.1).later hu.heap, hafter, hnamed⟩

end Layout

namespace Weaving

variable {options : Options} {resolver : Resolver} {type : TypePlan} {plan : PropertyPlan}
  {w w' : Workpiece} {woven : WovenSetter} {i : MethodId} {d : Method} {body : Body}

/-- Each call that gets the values before and after gets, on every run, the value that the field of its
target had on entry and the value that it has at the call; as an object or not, as the call wants it. -/
theorem values_passed (hset : plan.property.setter = some i) (hmethod : w.module.method? i = some d)
    (hbody : d.body = some body) (hsettled : body.code.Settled w.module.serial)
    (hinside : ∀ j ∈ body.code, ∀ n : UInt16, j.op = .stloc n → n.toNat < body.slots.length)
    (hrun : (setter options resolver type plan).run.run w = (.ok woven, w'))
    (hfits : ∀ result, (w'.module.method? i).bind (·.body) = some result →
      result.slots.length ≤ 65536) :
    ∃ m subscription before result, ∃ l : Layout ⟨options, resolver, m, type, plan⟩ subscription
        ((plan.targets.map (hookName ·.name)).filter (w.module.containsCallTo body.code))
        (plan.anchors body.code).1 before,
      Subscription (⟨options, resolver, ·, type, plan⟩) w.module
          (followed? options type plan w body.code) subscription m
        ∧ w'.module.method? i = some { d with body := some result }
        ∧ result.code = l.weave body.code
        ∧ ∀ p ∈ (plan.anchors body.code).1, ∀ t ∈ plan.targets,
          ∀ v ∈ (⟨options, resolver, m, type, plan⟩ : BlockContext).valueCalls
            ((plan.targets.map (hookName ·.name)).filter (w.module.containsCallTo body.code)) t,
          (∃ x, l.CallAt body.code p v x)
            ∧ ∀ x, l.CallAt body.code p v x → (result.code[x]?).map (·.op) = some v.call
              ∧ v.Passes ⟨w'.module, { d with body := some result }⟩ result.code plan.targets x := by
  obtain ⟨m, subscription, before, result, l, hsubscription, h⟩ :=
    stands_of_setter hset hmethod hbody hsettled hrun
  have hlength : result.slots.length ≤ 65536 := hfits result (by rw [h.method]; rfl)
  refine ⟨m, subscription, before, result, l, hsubscription, h.method, h.code, fun p hp t ht v hv =>
    ⟨l.exists_callAt hp (h.anchored.inside p hp) ht hv, fun x hat =>
      ⟨?_, h.passes hlength hinside hp ht hv hat⟩⟩⟩
  obtain ⟨_, _, _, j, -, -, -, hj, hop, -⟩ := hat.holds l hp (h.anchored.inside p hp)
  rw [h.code, hj, Option.map_some, hop]

end Weaving

namespace Weaving

/-- The body of the setter of a gauge, woven. -/
def quieted : Body :=
  (((Gauge.woven Gauge.quiet).2.module.method? ⟨1⟩).bind (·.body)).get (by decide +kernel)

theorem quieted_eq : ((Gauge.woven Gauge.quiet).2.module.method? ⟨1⟩).bind (·.body) = some quieted :=
  (Option.some_get _).symm

open Gauge in
/-- The call of the invoker of a gauge, which is at 15, gets the level on entry and the level at the call,
both boxed. -/
theorem values_passed_quiet :
    (woven quiet).2.module.method? ⟨1⟩ = some { accessor quiet with body := some quieted }
      ∧ (quieted.code[15]?).map (·.op) = some (.callvirt ⟨2⟩)
      ∧ ∀ bound g u, (⟨(woven quiet).2.module, { accessor quiet with body := some quieted }⟩ :
            Site).Reaches (Action.invokeAt (woven quiet).2.module bound) quieted.code 0
          ⟨[.ref ⟨1⟩, .int 1], [.null, .null], []⟩ machine 15 g u →
        ∃ fields', u.heap.get? ⟨1⟩ = some (.object ⟨11⟩ fields')
          ∧ (⟨Gauge.property, true, some "Level", .callvirt ⟨2⟩⟩ : ValueCall).Gets (woven quiet).2.module
            u.heap ⟨1⟩ (.int 0) ((fields'.get? level.token).getD (.int 0)) g.stack := by
  have hinside : ∀ j ∈ (body quiet).code, ∀ n : UInt16, j.op = .stloc n →
      n.toNat < (body quiet).slots.length := by
    have hnone : ∀ j ∈ (body quiet).code, j.op.code ≠ .stloc := by decide +kernel
    intro j hj n hop
    exact absurd (by rw [hop]; rfl) (hnone j hj)
  obtain ⟨m, subscription, before, result, l, hsubscription, hmethod, -, hcalls⟩ :=
    @values_passed (ctx quiet).options (ctx quiet).resolver (ctx quiet).type (ctx quiet).property
      ⟨module quiet, {}⟩ (woven quiet).2 ⟨[3], 1, none⟩ ⟨1⟩ (accessor quiet) (body quiet) rfl rfl rfl
      settled_quiet hinside woven_quiet fits_quiet
  have hnone : followed? (ctx quiet).options (ctx quiet).type (ctx quiet).property ⟨module quiet, {}⟩
      (body quiet).code = none := by decide +kernel
  rw [hnone] at hsubscription
  obtain ⟨rfl, rfl⟩ := hsubscription
  have hanchors : (3 : Nat) ∈ ((ctx quiet).property.anchors (body quiet).code).1 := by decide +kernel
  have hcall : (⟨Gauge.property, true, some "Level", .callvirt ⟨2⟩⟩ : ValueCall) ∈
      (ctx quiet).valueCalls (((ctx quiet).property.targets.map (hookName ·.name)).filter
        ((module quiet).containsCallTo (body quiet).code)) Gauge.property := by decide +kernel
  obtain ⟨⟨x, hat⟩, hall⟩ := hcalls 3 hanchors Gauge.property (List.mem_singleton_self _) _ hcall
  obtain ⟨hop, hpasses⟩ := hall x hat
  have hquieted : result = quieted :=
    Option.some.inj ((congrArg (·.bind (·.body)) hmethod).symm.trans quieted_eq)
  rw [hquieted] at hmethod hop hpasses
  -- nothing else in the woven code calls the invoker
  have honly : ∀ y < quieted.code.length, (quieted.code[y]?).map (·.op) = some (.callvirt ⟨2⟩) → y = 15 := by
    decide +kernel
  obtain ⟨i, hi, -⟩ := Option.map_eq_some_iff.mp hop
  obtain rfl : x = 15 := honly x (List.getElem?_eq_some_iff.mp hi).1 hop
  refine ⟨hmethod, hop, fun bound g u hreach => ?_⟩
  have hauto : ∀ t ∈ (ctx quiet).property.targets,
      t.AutoOn level (woven quiet).2.module machine.hooks ⟨11⟩ := by
    intro t ht
    obtain rfl := List.mem_singleton.mp ht
    exact ⟨⟨1⟩, ⟨0⟩, method 30 "get_Level" 0 ⟨1⟩ (some [.ldarg 0, .ldfld level, .ret]) (some ⟨0⟩), rfl,
      by decide +kernel, by decide, rfl, ⟨by decide, rfl, rfl, _, rfl, rfl⟩, by decide +kernel,
      by decide +kernel, by decide +kernel⟩
  obtain ⟨fields', hu, hgets⟩ := hpasses bound _ g machine u ⟨1⟩ ⟨11⟩ .empty (fun _ => level) rfl rfl
    hauto hreach
  have hdefault : (woven quiet).2.module.defaultOf level.type = .int 0 := by decide +kernel
  refine ⟨fields', hu, ?_⟩
  unfold Site.fieldValue at hgets
  rw [TokenMap.get?_empty, Option.getD_none, hdefault] at hgets
  exact hgets

end Weaving

end SetterLoom
