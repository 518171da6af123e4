import SetterLoom.Proofs.Weave.Passed

/-!
# Setters that do not store

Where no store is known, the announcements stand in front of the last return. A branch to that return goes
past them, and so does a return before it. A run that goes on to it from the instruction in front makes
them: each target is announced once, in order, and then the run returns.

* `changes_of_runs`: a run of the announcements.
* `announced_where_fallen`: runs of a woven setter without a store.
-/

namespace SetterLoom
set_option autoImplicit false

theorem Machine.Later.news {s t : Machine} (h : s.Later t) : ∃ events, t.news = s.news ++ events := by
  obtain ⟨events, hevents⟩ := h.trace
  refine ⟨events.filter TraceEvent.isNews, ?_⟩
  unfold Machine.news
  rw [hevents, List.filter_append]

namespace Site

variable {m : Module} {d : Method} {bound : Nat} {ops : List Op} {f g : Frame} {s t : Machine}

theorem Runs.later (hruns : (⟨m, d⟩ : Site).Runs (Action.invokeAt m bound) ops f s g t) :
    s.Later t ∧ g.arguments = f.arguments := by
  induction hruns with
  | nil => exact ⟨.refl _, rfl⟩
  | cons hdoes _ ih =>
    exact ⟨(later_does hdoes).1.trans ih.1, ih.2.trans hdoes.kept_of_next.arguments⟩

theorem ldloc_of_runs {c : Site} {call : Call} {k : UInt16} {u : Machine} {h : Frame}
    (hruns : c.Runs call (.ldloc k :: ops) f s h u) :
    ∃ v, f.slots[k.toNat]? = some v ∧ c.Runs call ops (f.push v) (s.spent 1) h u := by
  cases hv : f.slots[k.toNat]? with
  | some v => exact ⟨v, rfl, ((runs_plain (plain_ldloc hv)).mp hruns).2⟩
  | none =>
    obtain ⟨g, t, hdoes, -⟩ := runs_cons.mp hruns
    have hload : (c.pushFound .ldloc f f.slots[k.toNat]?).run.run { s with executed := s.executed + 1 }
        = (.ok (.next g), t) := hdoes.2
    rw [hv] at hload
    cases (Prod.mk.inj hload).1

/-- The run returns, and never comes into the code from `start` up to the return at `place`. It returns at
another place, or a branch leads it to this one. -/
structure ReturnsPast (c : Site) (call : Call) (code : Stream) (f : Frame) (s : Machine)
    (start place : Nat) (v : Value) (z : Machine) : Prop where
  outside : ∀ y g t, c.Reaches call code 0 f s y g t → ¬ (start ≤ y ∧ y < place)
  returns : ∃ x i g u, c.Reaches call code 0 f s x g u ∧ code[x]? = some i ∧ i.code = .ret
    ∧ c.Does call i.op g u (.done v) z
    ∧ (x = place → ∃ y j label h t, c.Reaches call code 0 f s y h t ∧ code[y]? = some j
      ∧ c.Does call j.op h t (.jump label g) u ∧ code.lastPosition? label = some x)

/-- A run that returns goes past straight code in front of a return, or runs all of it and then returns. -/
theorem Ends.past_or_through {c : Site} {call : Call} {code : Stream} {block : List Instruction}
    {x : Nat} {i : Instruction} {v : Value} {z : Machine} (hends : c.Ends call code idle 0 f s v z)
    (hholds : code.Holds x block) (hstraight : ∀ j ∈ block, j.op.Straight)
    (hlabels : ∀ j ∈ block, code.Untargeted j.label) (hi : code[x + block.length]? = some i)
    (hret : i.code = .ret) :
    c.ReturnsPast call code f s x (x + block.length) v z
      ∨ ∃ g u h k, c.Reaches call code 0 f s x g u ∧ c.Runs call (block.map (·.op)) g u h k
        ∧ c.Does call i.op h k (.done v) z := by
  -- either the run gets to the start of the block, or it never is inside,
  -- since control enters the block only from there
  by_cases hin : ∃ g u, c.Reaches call code 0 f s x g u
  · obtain ⟨g, u, hreach⟩ := hin
    obtain ⟨h, k, hruns, hrest⟩ := (hends.after hreach).runs hholds hstraight
    exact .inr ⟨g, u, h, k, hreach, hruns, hrest.of_ret hi hret⟩
  · left
    have houtside : ∀ y g t, c.Reaches call code 0 f s y g t → ¬ (x ≤ y ∧ y < x + block.length) := by
      rintro y g t hreach ⟨hle, hlt⟩
      obtain ⟨n, rfl⟩ : ∃ n, y = x + n := ⟨y - x, by omega⟩
      have hn : n < block.length := by omega
      have htake : (block.take n).length = n := by
        rw [List.length_take]
        omega
      have hbehind : ∀ j, code[x + n]? = some j → code.Untargeted j.label := by
        intro j hj
        exact hlabels j (List.mem_of_getElem? ((hholds n hn).symm.trans hj))
      rw [← htake] at hreach hbehind
      have hboth : code.Holds x (block.take n ++ block.drop n) := by rwa [List.take_append_drop]
      obtain ⟨h, u, hfront, -⟩ := hreach.ran (Nat.zero_le x)
        hboth.left
        (fun j hj => hlabels j (List.mem_of_mem_take hj)) hbehind
      exact hin ⟨h, u, hfront⟩
    refine ⟨houtside, ?_⟩
    obtain ⟨y, j, g, u, hreach, hj, hdone⟩ := hends.returns
    have hcode : j.code = .ret := by
      rcases hdone.way with ⟨_, hway, -⟩ | ⟨_, _, hway, -⟩ | ⟨_, -, hcode⟩
      · cases hway
      · cases hway
      · exact hcode
    refine ⟨y, j, g, u, hreach, hj, hcode, hdone, fun hy => ?_⟩
    -- the return is reached at the start, from the instruction in
    -- front, which is outside, or by a branch
    cases hreach with
    | start => exact absurd ⟨f, s, by rw [show x = 0 by omega]; exact .start⟩ hin
    | @next q k h _ t _ hfront hk hdoes =>
      cases block with
      | nil =>
        obtain rfl : q + 1 = x := hy
        exact absurd ⟨g, u, .next hfront hk hdoes⟩ hin
      | cons b rest =>
        rw [List.length_cons] at hy
        exact absurd ⟨by omega, by rw [List.length_cons]; omega⟩ (houtside q h t hfront)
    | @jump q _ k label h _ t _ hfront hk hdoes hr => exact ⟨q, k, label, h, t, hfront, hk, hdoes, hr⟩

end Site

namespace BlockContext

variable {ctx : BlockContext} {called : List String} {before : String → Bool → UInt16} {target : Property}
  {c : Site} {bound : Nat} {f g : Frame} {s t : Machine} {r : HeapRef} {type : Token}
  {fields : TokenMap Value}

theorem values_of_raise (hthis : f.arguments[0]? = some (.ref r)) {k k' : UInt16}
    (hruns : c.Runs (Action.invokeAt c.module bound) (ctx.raiseOps target k k') f s g t) :
    ∃ b a, (ctx.type.invoker.valueForm?.isSome → f.slots[k.toNat]? = some b)
      ∧ (ctx.type.invoker.valueForm?.isSome → f.slots[k'.toNat]? = some a) := by
  by_cases hform : ctx.type.invoker.valueForm?.isSome
  · have hshape : ctx.raiseOps target k k' = .ldarg 0 :: .ldstr target.name :: .ldloc k :: .ldloc k'
        :: [ctx.callOp ctx.type.invoker.method target] := by
      unfold raiseOps
      cases hinvoker : ctx.type.invoker with
      | simple i | arguments i j | senderAndArguments i j =>
        rw [hinvoker] at hform
        cases hform
      | beforeAfter i | typedBeforeAfter i => rfl
    rw [hshape] at hruns
    obtain ⟨-, hrest⟩ := (Site.runs_plain (Site.plain_ldarg hthis)).mp hruns
    obtain ⟨-, hrest⟩ := (Site.runs_cons_of_step (Site.step_ldstr target.name)).mp hrest
    obtain ⟨b, hb, hrest⟩ := Site.ldloc_of_runs hrest
    obtain ⟨a, ha, -⟩ := Site.ldloc_of_runs hrest
    exact ⟨b, a, fun _ => hb, fun _ => ha⟩
  · exact ⟨.null, .null, fun h => absurd h hform, fun h => absurd h hform⟩

theorem raise_of_runs (hannounces : ctx.type.invoker.Announces c.module s.hooks type)
    (hr : s.heap.get? r = some (.object type fields)) (hunheard : s.Unheard c.module r)
    (hthis : f.arguments[0]? = some (.ref r)) {k k' : UInt16}
    (hruns : c.Runs (Action.invokeAt c.module (bound + 1)) (ctx.raiseOps target k k') f s g t) :
    ∃ b a, s.Extends c.module t [.notified r target.name b a] := by
  obtain ⟨b, a, hb, ha⟩ := values_of_raise hthis hruns
  obtain ⟨T, hT, -, hiff⟩ := runs_raise bound hr hunheard hthis target hannounces hb ha
  obtain ⟨-, -, -, rfl⟩ := (hiff g t).mp hruns
  exact ⟨_, _, hT⟩

/-- Nothing is called for the target but the invoker, and getters that only read. -/
def Silent (ctx : BlockContext) (called : List String) (m : Module) (hooks : HookTable) (type : Token)
    (target : Property) : Prop :=
  ctx.hookFor? called target = none
    ∧ (ctx.type.invoker.valueForm?.isSome → ∃ field, target.ReadsFrom field m hooks type)

/-- The news end with one announcement of the target. What is told before it comes from the hook of the
target or from its getter. -/
def AnnouncesOnce (ctx : BlockContext) (called : List String) (m : Module) (hooks : HookTable)
    (type : Token) (r : HeapRef) (target : Property) (news : List TraceEvent) : Prop :=
  ∃ own b a, news = own ++ [.notified r target.name b a]
    ∧ (ctx.Silent called m hooks type target → own = [])

section Runs

variable {hooks : HookTable} (htypes : ctx.module.types = c.module.types)
  (hannounces : ctx.type.invoker.Announces c.module hooks type)
  (hannounced : ∀ name, ctx.property.announces name = false)
  (hhooks : s.hooks = hooks) (hr : s.heap.get? r = some (.object type fields))
  (hthis : f.arguments[0]? = some (.ref r))
include htypes hannounces hannounced hhooks hr hthis

theorem target_of_runs {after : AfterSlots}
    (hquiet : ∀ ops ops' k y, ctx.targetOps called before target after = ops ++ ops' →
      c.Runs (Action.invokeAt c.module (bound + 1)) ops f s k y → y.Unheard c.module r)
    (hruns : c.Runs (Action.invokeAt c.module (bound + 1)) (ctx.targetOps called before target after)
      f s g t) :
    ∃ part, t.news = s.news ++ part ∧ ctx.AnnouncesOnce called c.module hooks type r target part := by
  have hops : ctx.targetOps called before target after
      = ((ctx.hookFor? called target).elim [] (ctx.hookOps target · before after.hook)
          ++ ctx.valueOps target after.call)
        ++ ctx.raiseOps target (before target.name (ctx.type.invoker.valueForm?.getD false)) after.call := by
    unfold targetOps
    rw [hannounced, if_neg Bool.false_ne_true, announceOps_eq, List.append_assoc]
  rw [hops] at hruns
  obtain ⟨h, x, hfront, hraise⟩ := Site.runs_append.mp hruns
  obtain ⟨hlater, harguments⟩ := hfront.later
  obtain ⟨fields', hx⟩ := hlater.object hr
  have hhooks' : x.hooks = hooks := hlater.hooks.trans hhooks
  obtain ⟨b, a, hT⟩ := raise_of_runs (hhooks' ▸ hannounces) hx (hquiet _ _ h x hops hfront)
    (harguments ▸ hthis) hraise
  -- what is told besides comes from the hook and the getter; a silent target has neither
  obtain ⟨own, hown, hsilent⟩ : ∃ own, x.news = s.news ++ own
      ∧ (ctx.Silent called c.module hooks type target → own = []) := by
    by_cases hsilent : ctx.Silent called c.module hooks type target
    · obtain ⟨hhook, hreads⟩ := hsilent
      refine ⟨[], ?_, fun _ => rfl⟩
      rw [hhook] at hfront
      unfold valueOps at hfront
      cases hform : ctx.type.invoker.valueForm? with
      | none =>
        rw [hform] at hfront
        obtain ⟨-, rfl⟩ := Site.runs_nil.mp hfront
        exact (List.append_nil _).symm
      | some boxed =>
        rw [hform] at hfront
        obtain ⟨field, hread⟩ := hreads (by rw [hform]; rfl)
        obtain ⟨-, -, -, hextends, -⟩ := read_of_runs htypes (hhooks ▸ hread) hr hthis hfront
        exact hextends.news
    · obtain ⟨own, hown⟩ := hlater.news
      exact ⟨own, hown, fun h => absurd h hsilent⟩
  refine ⟨own ++ [.notified r target.name b a], ?_, own, b, a, rfl, hsilent⟩
  rw [hT.news, hown, List.append_assoc]

theorem targets_of_runs {pairs : List (Property × AfterSlots)}
    (hquiet : ∀ ops ops' k y, (pairs.flatMap fun t => ctx.targetOps called before t.1 t.2) = ops ++ ops' →
      c.Runs (Action.invokeAt c.module (bound + 1)) ops f s k y → y.Unheard c.module r)
    (hruns : c.Runs (Action.invokeAt c.module (bound + 1))
      (pairs.flatMap fun t => ctx.targetOps called before t.1 t.2) f s g t) :
    ∃ parts : List (List TraceEvent), t.news = s.news ++ parts.flatten
      ∧ List.Forall₂ (ctx.AnnouncesOnce called c.module hooks type r) (pairs.map (·.1)) parts := by
  induction pairs generalizing f s fields with
  | nil =>
    obtain ⟨-, rfl⟩ := Site.runs_nil.mp hruns
    exact ⟨[], (List.append_nil _).symm, .nil⟩
  | cons t rest ih =>
    rw [List.flatMap_cons] at hruns
    obtain ⟨h, x, hfirst, hrest⟩ := Site.runs_append.mp hruns
    obtain ⟨part, hpart, honce⟩ := target_of_runs htypes hannounces hannounced hhooks hr hthis
      (fun ops ops' k y hops => hquiet ops (ops' ++ rest.flatMap fun t => ctx.targetOps called before t.1 t.2)
        k y (by rw [List.flatMap_cons, hops, List.append_assoc])) hfirst
    obtain ⟨hlater, harguments⟩ := hfirst.later
    obtain ⟨fields', hx⟩ := hlater.object hr
    obtain ⟨parts, hparts, hall⟩ := ih (hlater.hooks.trans hhooks) hx (harguments ▸ hthis)
      (fun ops ops' k y hops hruns => hquiet (ctx.targetOps called before t.1 t.2 ++ ops) ops' k y
        (by rw [List.flatMap_cons, hops, List.append_assoc]) (hfirst.append hruns)) hrest
    refine ⟨part :: parts, ?_, .cons honce hall⟩
    rw [hparts, hpart, List.flatten_cons, List.append_assoc]

/-- A run of the announcements sets the dirty flag and announces each target once, in order. -/
theorem changes_of_runs {after : List AfterSlots} (hlength : after.length = ctx.property.targets.length)
    (hquiet : ∀ ops ops' k y, ctx.changeOps called before after = ops ++ ops' →
      c.Runs (Action.invokeAt c.module (bound + 1)) ops f s k y → y.Unheard c.module r)
    (hruns : c.Runs (Action.invokeAt c.module (bound + 1)) (ctx.changeOps called before after) f s g t) :
    ∃ (flag : List TraceEvent) (parts : List (List TraceEvent)), t.news = s.news ++ flag ++ parts.flatten
      ∧ (ctx.dirtySetter? = none → flag = [])
      ∧ List.Forall₂ (ctx.AnnouncesOnce called c.module hooks type r) ctx.property.targets parts := by
  obtain ⟨h, x, hflag, hrest⟩ := Site.runs_append.mp hruns
  obtain ⟨hlater, harguments⟩ := hflag.later
  obtain ⟨fields', hx⟩ := hlater.object hr
  obtain ⟨parts, hparts, hall⟩ := targets_of_runs htypes hannounces hannounced
    (hlater.hooks.trans hhooks) hx (harguments ▸ hthis)
    (fun ops ops' k y hops hruns => hquiet (ctx.dirtyFlagOps ++ ops) ops' k y
      (by rw [changeOps, targetsOps, hops, List.append_assoc]) (hflag.append hruns)) hrest
  rw [List.map_fst_zip (Nat.le_of_eq hlength.symm)] at hall
  obtain ⟨flag, hnews, hnone⟩ : ∃ flag, x.news = s.news ++ flag
      ∧ (ctx.dirtySetter? = none → flag = []) := by
    cases hsetter : ctx.dirtySetter? with
    | none =>
      unfold dirtyFlagOps at hflag
      rw [hsetter] at hflag
      obtain ⟨-, rfl⟩ := Site.runs_nil.mp hflag
      exact ⟨[], (List.append_nil _).symm, fun _ => rfl⟩
    | some i =>
      obtain ⟨flag, hnews⟩ := hlater.news
      exact ⟨flag, hnews, fun h => by cases h⟩
  exact ⟨flag, parts, by rw [hparts, hnews], hnone, hall⟩

end Runs

end BlockContext

/-- Woven code without a subscription returns only where the unedited code does; so if it returns at all then
the last return stands at its place. -/
theorem Layout.ret_of_ends {ctx : BlockContext} {called : List String} {anchors : List Nat}
    {before : String → Bool → UInt16} {l : Layout ctx none called anchors before} {code : Stream}
    (hle : code.lastReturn ≤ code.length) {c : Site} {call : Call} {p : Nat} {f : Frame} {s z : Machine}
    {v : Value} (hends : c.Ends call (l.weave code) Site.idle p f s v z) :
    ∃ i, (l.weave code)[l.place code code.lastReturn]? = some i ∧ i.code = .ret := by
  obtain ⟨x, k, g, u, -, hk, hdone⟩ := hends.returns
  have hkret : k.code = .ret := by
    rcases hdone.way with ⟨_, hway, -⟩ | ⟨_, _, hway, -⟩ | ⟨_, -, hcode⟩
    · cases hway
    · cases hway
    · exact hcode
  rcases l.mem_weave (List.mem_of_getElem? hk) with hmem | hmem
  · obtain ⟨q, hq⟩ := List.mem_iff_getElem?.mp hmem
    obtain ⟨-, i, hi, hret⟩ := Stream.getElem?_lastReturn hq hkret
    exact ⟨i, by rw [l.getElem?_place hle, hi], hret⟩
  · have hunsubscribe : l.unsubscribe = [] := l.unsubscribe_ops
    have hsubscribe : l.subscribe = [] := l.subscribe_ops
    rcases l.bent_injected hmem fun hstraight => hstraight.2.2.2 hkret with hnone | hnone
    · rw [hunsubscribe] at hnone
      exact absurd hnone List.not_mem_nil
    · rw [hsubscribe] at hnone
      exact absurd hnone List.not_mem_nil

namespace Weaving

variable {options : Options} {resolver : Resolver} {type : TypePlan} {plan : PropertyPlan}
  {w w' : Workpiece} {woven : WovenSetter} {i : MethodId} {d : Method} {body : Body}

theorem followed?_of_no_store {code : Stream} (h : (plan.anchors code).2 = false) :
    followed? options type plan w code = none := by
  unfold followed?
  rw [h]
  cases plan.backing <;> rfl

theorem anchors_of_no_store {code : Stream} (h : (plan.anchors code).2 = false) :
    (plan.anchors code).1 = [code.lastReturn] := by
  unfold PropertyPlan.anchors at h ⊢
  cases hbacking : plan.backing with
  | none => rfl
  | some field =>
    rw [hbacking] at h
    cases hstores : code.stores field.name with
    | nil => simp only [hstores]
    | cons a rest =>
      simp only [hstores] at h
      cases h

/-- The run comes to the announcements, makes them, and then returns from the last return. -/
def Announcing (c : Site) (call : Call) (code : Stream) (f : Frame) (s : Machine) (start place : Nat)
    (r : HeapRef) (flag : Bool) (once : List (List TraceEvent) → Prop) (v : Value) (z : Machine) : Prop :=
  ∃ g u, c.Reaches call code 0 f s start g u
    ∧ ((∀ y h t, start ≤ y → y ≤ place → c.Reaches call code 0 f s y h t → t.Unheard c.module r) →
      ∃ flags parts, z.news = u.news ++ flags ++ parts.flatten ∧ (flag = false → flags = []) ∧ once parts)
    ∧ ∃ h k i, c.Reaches call code 0 f s place h k ∧ code[place]? = some i ∧ i.code = .ret
      ∧ c.Does call i.op h k (.done v) z

/-- What holds of what was announced still holds if less is asked. -/
theorem Announcing.imp {c : Site} {call : Call} {code : Stream} {f : Frame} {s z : Machine} {start place : Nat}
    {r : HeapRef} {flag : Bool} {once once' : List (List TraceEvent) → Prop} {v : Value}
    (h : Announcing c call code f s start place r flag once v z) (himp : ∀ parts, once parts → once' parts) :
    Announcing c call code f s start place r flag once' v z := by
  obtain ⟨g, u, hreach, hnews, hreturns⟩ := h
  refine ⟨g, u, hreach, fun hquiet => ?_, hreturns⟩
  obtain ⟨flags, parts, heq, hflag, honce⟩ := hnews hquiet
  exact ⟨flags, parts, heq, hflag, himp parts honce⟩

/-- Where no store is known, a run of the woven setter that returns goes past the announcements, as it
returns from another return than the last or goes to that one by a branch; or it falls onto the last
return, and has then announced each target once. -/
theorem announced_where_fallen (hset : plan.property.setter = some i)
    (hmethod : w.module.method? i = some d) (hbody : d.body = some body)
    (hsettled : body.code.Settled w.module.serial) (hnostore : (plan.anchors body.code).2 = false)
    (hannounced : plan.announced = [])
    (hrun : (setter options resolver type plan).run.run w = (.ok woven, w')) :
    ∃ called before result, ∃ l : Layout ⟨options, resolver, w.module, type, plan⟩ none called
        (plan.anchors body.code).1 before,
      w'.module.method? i = some { d with body := some result }
        ∧ result.code = l.weave body.code
        ∧ ∀ (bound : Nat) (f : Frame) (s z : Machine) (r : HeapRef) (t : Token)
            (fields : TokenMap Value) (v : Value),
          f.arguments[0]? = some (.ref r) → s.heap.get? r = some (.object t fields) →
          type.invoker.Announces w'.module s.hooks t →
          (⟨w'.module, { d with body := some result }⟩ : Site).Ends
            (Action.invokeAt w'.module (bound + 1)) result.code Site.idle 0 f s v z →
          (⟨w'.module, { d with body := some result }⟩ : Site).ReturnsPast
              (Action.invokeAt w'.module (bound + 1)) result.code f s
              (l.start body.code body.code.lastReturn) (l.place body.code body.code.lastReturn) v z
            ∨ Announcing ⟨w'.module, { d with body := some result }⟩
              (Action.invokeAt w'.module (bound + 1)) result.code f s
              (l.start body.code body.code.lastReturn) (l.place body.code body.code.lastReturn) r
              (⟨options, resolver, w.module, type, plan⟩ : BlockContext).dirtySetter?.isSome
              (List.Forall₂ ((⟨options, resolver, w.module, type, plan⟩ : BlockContext).AnnouncesOnce
                called w'.module s.hooks t r) plan.targets) v z := by
  obtain ⟨m, subscription, before, result, l, hsubscription, hstands⟩ :=
    stands_of_setter hset hmethod hbody hsettled hrun
  rw [followed?_of_no_store hnostore] at hsubscription
  obtain ⟨rfl, rfl⟩ := hsubscription
  refine ⟨_, before, result, l, hstands.method, hstands.code, ?_⟩
  intro bound f s z r t fields v hthis hr hannounces hends
  have hp : body.code.lastReturn ∈ (plan.anchors body.code).1 := by
    rw [anchors_of_no_store hnostore]
    exact List.mem_singleton_self _
  have hle := hstands.anchored.inside _ hp
  have hblock : l.block body.code body.code.lastReturn = l.notification body.code.lastReturn := by
    rw [l.block_eq, if_pos hp]
  have hholds := l.holds_block hle
  have hplace := l.place_eq body.code body.code.lastReturn
  rw [hblock] at hholds hplace
  rw [← hstands.code] at hholds
  obtain ⟨j, hj, hjret⟩ := l.ret_of_ends hle (hstands.code ▸ hends)
  rw [← hstands.code] at hj
  rcases hends.past_or_through hholds (fun k hk => (l.working_notification hp hk).1)
      (hstands.untargeted_notification hp) (hplace ▸ hj) hjret with
    hpast | ⟨g, u, h, k, hreach, hruns, hdone⟩
  · rw [hplace]
    exact .inl hpast
  · have hbehind := hreach.trans (Site.Reaches.of_runs hruns hholds)
    refine .inr ⟨g, u, hreach, fun hquiet => ?_, h, k, j, by rw [hplace]; exact hbehind, hj, hjret, hdone⟩
    obtain ⟨after, hlength, hops⟩ := l.notification_ops _ hp
    obtain ⟨hthis', hhooks, fields', hr'⟩ := hreach.receiver hthis hr
    rw [hops] at hruns
    -- each part of the announcements is run from where the run of the setter is
    have hunheard : ∀ ops ops' k y, (⟨options, resolver, w.module, type, plan⟩ : BlockContext).changeOps
          ((plan.targets.map (hookName ·.name)).filter (w.module.containsCallTo body.code)) before after
            = ops ++ ops' →
        (⟨w'.module, { d with body := some result }⟩ : Site).Runs (Action.invokeAt w'.module (bound + 1))
          ops g u k y → y.Unheard w'.module r := by
      intro ops ops' k y hsplit hfront
      obtain ⟨front, back, hnotification, rfl, -⟩ := List.map_eq_append_iff.mp (hops.trans hsplit)
      rw [hnotification] at hholds hplace
      rw [List.length_append] at hplace
      exact hquiet _ k y (Nat.le_add_right _ front.length) (by omega)
        (hreach.trans (Site.Reaches.of_runs hfront hholds.left))
    obtain ⟨flag, parts, hnews, hflag, hall⟩ := BlockContext.changes_of_runs hstands.types hannounces
      (fun name => by rw [PropertyPlan.announces, hannounced]; rfl) hhooks hr' hthis' hlength hunheard hruns
    obtain ⟨-, rfl⟩ := hdone.of_ret hjret
    exact ⟨flag, parts, hnews, fun hnone => hflag (by simpa using hnone), hall⟩

end Weaving

/-! ## A gauge that ignores its level -/

namespace Gauge

/-- Return at once for zero, and else a little later. -/
def guarded : List Op := [.ldarg 1, .branch .brtrue (.written 3), .ret, .nop, .ret]

def storeless : Except Error WovenSetter × Workpiece :=
  (Weaving.setter {} resolver (ctx guarded).type { property }).run.run ⟨module guarded, {}⟩

/-- The woven body. -/
def storelessBody : Body :=
  ((storeless.2.module.method? ⟨1⟩).bind (·.body)).get (by decide +kernel)

theorem announces : (ctx guarded).type.invoker.Announces storeless.2.module machine.hooks ⟨11⟩ :=
  ⟨⟨method 32 Surface.raiser 3 ⟨1⟩ none, method 32 Surface.raiser 3 ⟨1⟩ none, by decide +kernel,
    by decide, rfl, rfl, by decide +kernel, rfl, RuntimeMember.raise.hook, by decide +kernel, rfl⟩,
    fun _ h => by cases h⟩

theorem reads_level : property.ReadsFrom level storeless.2.module machine.hooks ⟨11⟩ :=
  let getter := method 30 "get_Level" 0 ⟨1⟩ (some [.ldarg 0, .ldfld level, .ret]) (some ⟨0⟩)
  ⟨⟨0⟩, getter, getter, rfl, by decide +kernel, by decide, rfl, rfl, by decide +kernel,
    ⟨by decide, rfl, rfl, _, rfl, rfl⟩, by decide +kernel⟩

end Gauge

namespace Weaving

open Gauge in
/-- A call with one, which is past the guard, goes past the announcements, which are from 8 up to the return
at 17, or announces the level once. -/
theorem announced_where_fallen_guarded :
    storeless.2.module.method? ⟨1⟩ = some { accessor guarded with body := some storelessBody }
      ∧ ∃ z, (⟨storeless.2.module, { accessor guarded with body := some storelessBody }⟩ : Site).Ends
          (Action.invokeAt storeless.2.module 8) storelessBody.code Site.idle 0
          ⟨[.ref ⟨1⟩, .int 1], [.null, .null], []⟩ { machine with depth := 1 } .void z
        ∧ ((⟨storeless.2.module, { accessor guarded with body := some storelessBody }⟩ :
              Site).ReturnsPast (Action.invokeAt storeless.2.module 8) storelessBody.code
              ⟨[.ref ⟨1⟩, .int 1], [.null, .null], []⟩ { machine with depth := 1 } 8 17 .void z
          ∨ Announcing ⟨storeless.2.module, { accessor guarded with body := some storelessBody }⟩
              (Action.invokeAt storeless.2.module 8) storelessBody.code
              ⟨[.ref ⟨1⟩, .int 1], [.null, .null], []⟩ { machine with depth := 1 } 8 17 ⟨1⟩ false
              (fun parts => ∃ b a, parts = [[.notified ⟨1⟩ "Level" b a]]) .void z) := by
  have hwoven : storeless = (.ok ⟨[4], 1, none⟩, storeless.2) := Prod.ext (by decide +kernel) rfl
  have hsettled : (Gauge.body guarded).code.Settled (module guarded).serial := by
    have hwritten : ∀ j ∈ (Gauge.body guarded).code, j.op.target?.all (· == .written 3) = true := by
      decide +kernel
    rintro j hj l hl n - rfl
    have htarget := hwritten j hj
    rw [hl] at htarget
    cases htarget
  have hbody : (storeless.2.module.method? ⟨1⟩).bind (·.body) = some storelessBody :=
    (Option.some_get _).symm
  obtain ⟨called, before, result, l, hmethod, hcode, hall⟩ :=
    @announced_where_fallen {} resolver (ctx guarded).type { property := Gauge.property }
      ⟨module guarded, {}⟩ storeless.2 ⟨[4], 1, none⟩ ⟨1⟩ (accessor guarded) (Gauge.body guarded)
      rfl rfl rfl hsettled (by decide +kernel) rfl hwoven
  rw [hmethod] at hbody
  obtain rfl : result = storelessBody := Option.some.inj hbody
  obtain ⟨t, hreturns⟩ : ∃ t, ((⟨storeless.2.module, { accessor guarded with
      body := some storelessBody }⟩ : Site).runBody (Action.invokeAt storeless.2.module 8)
        (some (.ref ⟨1⟩)) [.int 1]).run.run machine = (.ok .void, t) :=
    Steps.exists_of_fst (by decide +kernel)
  have hinstance : (accessor guarded).isStatic = false := by decide
  obtain ⟨z, hends, -⟩ := Site.ends_of_runBody
    (d := { accessor guarded with body := some storelessBody }) rfl hinstance hreturns
  have hslots : (⟨storeless.2.module, { accessor guarded with body := some storelessBody }⟩ :
      Site).startSlots storelessBody = [.null, .null] := by decide +kernel
  rw [hslots] at hends
  have hdirty : (⟨{}, resolver, module guarded, (ctx guarded).type, { property := Gauge.property }⟩ :
      BlockContext).dirtySetter?.isSome = false := by decide +kernel
  -- no instruction comes twice, so the old ones are found by what they are
  have hnodup : storelessBody.code.Nodup := by decide +kernel
  have hplace (p x : Nat) := l.place_of_nodup hcode hnodup (p := p) (x := x)
  have hlast : (Gauge.body guarded).code.lastReturn = 4 := by decide +kernel
  have hstart : l.start (Gauge.body guarded).code 4 = 8 := by
    rw [l.start_succ, hplace 3 7 (by decide) (by decide +kernel)]
  have hcases := hall 7 _ { machine with depth := 1 } z ⟨1⟩ ⟨11⟩ .empty .void rfl rfl announces hends
  rw [hdirty, hlast, hstart, hplace 4 17 (by decide) (by decide +kernel)] at hcases
  refine ⟨hmethod, z, hends, hcases.imp_right fun h => h.imp fun parts hparts => ?_⟩
  obtain ⟨news, rest, ⟨own, b, a, rfl, hsilent⟩, hrest, rfl⟩ := List.forall₂_cons_left_iff.mp hparts
  obtain rfl := List.forall₂_nil_left_iff.mp hrest
  have hhook : BlockContext.hookFor? ⟨{}, resolver, module guarded, (ctx guarded).type,
      { property := Gauge.property }⟩ called Gauge.property = none := by
    unfold BlockContext.hookFor?
    split
    · decide +kernel
    · rfl
  rw [hsilent ⟨hhook, fun _ => ⟨level, reads_level⟩⟩]
  exact ⟨b, a, rfl⟩

open Gauge in
/-- A call with zero returns from the first return, and nothing is announced. -/
theorem early_return_not_announced :
    storeless.1 = .ok ⟨[4], 1, none⟩
      ∧ (ctx guarded).type.invoker.Announces storeless.2.module machine.hooks ⟨11⟩
      ∧ machine.Unheard storeless.2.module ⟨1⟩
      ∧ ((Action.setProperty storeless.2.module ⟨1⟩ Gauge.property (.int 0)).run.run machine).1 = .ok ()
      ∧ ((Action.setProperty storeless.2.module ⟨1⟩ Gauge.property (.int 0)).run.run machine).2.news
        = [] := by
  refine ⟨by decide +kernel, announces, ⟨⟨11⟩, .empty, rfl, fun f _ q => ?_⟩, by decide +kernel,
    by decide +kernel⟩
  rw [TokenMap.get?_empty]
  exact fun h => by cases h

end Weaving

end SetterLoom
