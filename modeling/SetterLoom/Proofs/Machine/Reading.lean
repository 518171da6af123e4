import SetterLoom.Proofs.Machine.Growing
import SetterLoom.Proofs.Machine.Unhooked

/-!
# Code that only reads

Code that stores into no object, makes none with a constructor and points to no method, and that calls only
methods of which the same holds, leaves all objects as they were and tells nothing: it makes strings and boxes,
and calls.

* `Module.Reads`: the methods of some names only read.
* `Module.Reads.calmCalls`: a call of such a method.
* `Module.Reads.runs`: a piece of such code.
-/

namespace SetterLoom
set_option autoImplicit false

/-- The operation stores into no object, makes none with a constructor, points to no method, and refers only to
methods that have one of the names. -/
structure Op.Reads (m : Module) (names : Set String) (op : Op) : Prop where
  code : op.code ≠ .stfld ∧ op.code ≠ .initobj ∧ op.code ≠ .newobj ∧ op.code ≠ .ldftn
  method : ∀ u d, op.operand = .method u → m.method? u.method = some d → d.name ∈ names

/-- The methods that have one of the names only read. The machine answers for none of them, except that it may
compare two objects. -/
structure Module.Reads (m : Module) (names : Set String) : Prop where
  plain : ∀ name ∈ names, name ≠ Surface.invoke ∧ name ≠ Surface.raiser ∧ ∀ a : EventAccessor, name ≠ a.name
  code : ∀ i d body, m.method? i = some d → d.name ∈ names → d.body = some body →
    ∀ k ∈ body.code, k.op.Reads m names

/-- A hook of the runtime that is asked for a method compares objects, or answers for methods of the event. -/
theorem RuntimeMember.of_find {c : CallName} {h : Hook}
    (hfind : Machine.withRuntimeMembers.hooks.find? c = some h) (hraiser : c.method ≠ Surface.raiser)
    (haccessor : ∀ a : EventAccessor, c.method ≠ a.name) : h = RuntimeMember.objectEquals.hook := by
  obtain ⟨member, rfl⟩ := Upkeep.hook_of_mem (List.mem_of_find?_eq_some hfind)
  have hfits : member.hook.fits c = true := by
    have hfound : List.find? (·.fits c) Machine.withRuntimeMembers.hooks = some member.hook := hfind
    simpa using List.find?_some hfound
  unfold Hook.fits at hfits
  cases member with
  | objectEquals => rfl
  | addHandler =>
    simp only [RuntimeMember.hook, Option.any_some, NamePattern.fits, NamePattern.fitsPart, Bool.true_and,
      beq_iff_eq] at hfits
    exact absurd hfits.symm (haccessor .add)
  | removeHandler =>
    simp only [RuntimeMember.hook, Option.any_some, NamePattern.fits, NamePattern.fitsPart, Bool.true_and,
      beq_iff_eq] at hfits
    exact absurd hfits.symm (haccessor .remove)
  | raise =>
    simp only [RuntimeMember.hook, Option.any_some, NamePattern.fits, NamePattern.fitsPart, Bool.true_and,
      beq_iff_eq] at hfits
    exact absurd hfits.symm hraiser

namespace Action

variable {m : Module} {α β : Type} {a : Action α} {f : α → Action β}

/-- With the hooks of the runtime, the action leaves all objects as they were and tells nothing if it
succeeds. -/
def Calm (m : Module) (a : Action α) : Prop :=
  ∀ ⦃s x t⦄, s.hooks = Machine.withRuntimeMembers.hooks → a.run.run s = (.ok x, t) → s.Adds m t []

theorem Calm.bind (ha : Calm m a) (hf : ∀ x, Calm m (f x)) : Calm m (a >>= f) := by
  intro s y t hs hrun
  obtain ⟨x, u, hax, hrest⟩ := Steps.bind_ok.mp hrun
  have hu := ha hs hax
  exact hu.trans (hf x (hu.hooks.trans hs) hrest)

theorem calm_pure (x : α) : Calm m (pure x) := by
  intro s y t _ hrun
  obtain ⟨-, rfl⟩ := Steps.pure_ok.mp hrun
  exact .refl m _

theorem calm_throw (e : Error) : Calm m (throw e : Action α) :=
  fun _ _ _ _ hrun => absurd hrun Steps.throw_not_ok

theorem calm_fault (e : Fault) : Calm m (fault e : Action α) := calm_throw _

theorem Calm.map {g : α → β} (ha : Calm m a) : Calm m (g <$> a) := by
  have hmap : g <$> a = a >>= fun x => pure (g x) := map_eq_pure_bind g a
  rw [hmap]
  exact ha.bind fun _ => calm_pure _

theorem calm_heap (read : Heap → Except Error α) : Calm m (heap read) := by
  intro s x t _ hrun
  obtain ⟨-, rfl⟩ := Prod.mk.inj hrun
  exact .refl m _

theorem calm_alloc {o : HeapObject} (ho : o.Made) : Calm m (alloc o) := by
  intro s x t _ hrun
  obtain ⟨-, rfl⟩ := Prod.mk.inj hrun
  exact (Machine.Adds.refl m s).push ho

theorem calm_valuesEqual (a b : Value) : Calm m (valuesEqual a b) := by
  unfold valuesEqual
  split
  · split
    · exact calm_pure _
    · refine (calm_heap _).bind fun left => (calm_heap _).bind fun right => ?_
      split <;> exact calm_pure _
  · exact calm_pure _

theorem calm_objectEquals (arguments : List Value) : Calm m (objectEquals arguments) := by
  unfold objectEquals
  split
  · exact (calm_valuesEqual _ _).bind fun _ => calm_pure _
  · exact calm_fault _

end Action

namespace Site

open SetterLoom.Action

variable {c : Site} {f : Frame} {names : Set String} {bound : Nat}

/-! ## One instruction -/

theorem calm_unexpected {α : Type} (code : OpCode) : Calm c.module (c.unexpected code : Action α) := calm_fault _

theorem calm_pop : Calm c.module (c.pop f) := by
  unfold pop
  split
  · exact calm_pure _
  · exact calm_fault _

theorem calm_popMany (count : Nat) : Calm c.module (c.popMany f count) := by
  unfold popMany
  split
  · exact calm_pure _
  · exact calm_fault _

theorem calm_object (v : Value) : Calm c.module (c.object v) := by
  unfold object
  split
  · exact calm_pure _
  · exact calm_fault _

theorem calm_pushFound (code : OpCode) (found : Option Value) : Calm c.module (c.pushFound code f found) := by
  cases found with
  | some v => exact calm_pure _
  | none => exact calm_unexpected code

theorem calm_storeSlot (k : Nat) : Calm c.module (c.storeSlot f k) := by
  refine calm_pop.bind fun x => ?_
  dsimp only
  split
  · exact calm_pure _
  · exact calm_unexpected _

theorem calm_boxTop (type : TypeId) : Calm c.module (c.boxTop f type) := by
  refine calm_pop.bind fun x => ?_
  dsimp only
  split
  · exact (calm_alloc fun _ _ heq => by cases heq).bind fun _ => calm_pure _
  · exact calm_pure _

theorem calm_returnTop : Calm c.module (c.returnTop f) := by
  unfold returnTop
  split
  · exact calm_pop.bind fun _ => calm_pure _
  · exact calm_pure _

/-- The calls of methods that have one of the names are calm. -/
def CalmCalls (m : Module) (names : Set String) (bound : Nat) : Prop :=
  ∀ i d this arguments, m.method? i = some d → d.name ∈ names →
    Calm m (Action.invokeAt m bound i this arguments)

variable (hplain : Surface.invoke ∉ names) (hcalls : CalmCalls c.module names bound)
include hplain hcalls

theorem calm_callOn {i : MethodId} {d : Method} (hd : c.module.method? i = some d) (hname : d.name ∈ names)
    (code : OpCode) (this : Value) (arguments : List Value) :
    Calm c.module (c.callOn (Action.invokeAt c.module bound) code i d this arguments) := by
  intro s x t hs hrun
  by_cases hcode : code = .callvirt
  · subst hcode
    have hother : d.name ≠ Surface.invoke := fun heq => hplain (heq ▸ hname)
    obtain ⟨j, e, he, hsame, hcall⟩ := Action.callOn_ok hd hother hrun
    exact hcalls j e _ _ he (hsame.symm ▸ hname) hs hcall
  · unfold callOn at hrun
    split at hrun
    · exact absurd rfl hcode
    · exact absurd rfl hcode
    · exact hcalls i d _ arguments hd hname hs hrun

theorem calm_callMethod {i : MethodId} (hname : ∀ d, c.module.method? i = some d → d.name ∈ names)
    (code : OpCode) : Calm c.module (c.callMethod (Action.invokeAt c.module bound) f code i) := by
  unfold callMethod
  split
  · exact calm_unexpected _
  · rename_i d hd
    refine (calm_popMany _).bind fun x => ?_
    obtain ⟨arguments, g⟩ := x
    dsimp only
    split
    · exact (hcalls i d none arguments hd (hname d hd)).bind fun _ => calm_pure _
    · exact calm_pop.bind fun y =>
        (calm_callOn hplain hcalls hd (hname d hd) code y.1 arguments).bind fun _ => calm_pure _

theorem calm_step {op : Op} (hop : op.Reads c.module names) :
    Calm c.module (c.step (Action.invokeAt c.module bound) op f) := by
  obtain ⟨⟨hstore, hinit, hnew, hpoint⟩, hmethod⟩ := hop
  induction op using Op.forms with
  | nop | ldnull | ldcI4 | br => exact calm_pure _
  | stfld => exact absurd rfl hstore
  | initobj => exact absurd rfl hinit
  | newobj => exact absurd rfl hnew
  | ldftn => exact absurd rfl hpoint
  | ceq => exact calm_pop.bind fun _ => calm_pop.bind fun _ => calm_pure _
  | dup | pop | brtrue | brfalse => exact calm_pop.bind fun _ => calm_pure _
  | ret => exact calm_returnTop
  | ldarg | ldloc => exact calm_pushFound _ _
  | stloc => exact calm_storeSlot _
  | ldstr => exact (calm_alloc fun _ _ heq => by cases heq).map.map
  | ldfld =>
    exact calm_pop.bind fun x => (calm_object x.1).bind fun _ => (calm_heap _).bind fun _ => calm_pure _
  | ldflda => exact calm_pop.bind fun x => (calm_object x.1).bind fun _ => calm_pure _
  | box => exact calm_boxTop _
  | call use | callvirt use => exact calm_callMethod hplain hcalls (fun d => hmethod use d rfl) _
  | stuck op hstuck =>
    rw [hstuck]
    exact calm_unexpected _

/-! ## Code -/

theorem calm_does {op : Op} (hop : op.Reads c.module names) {way : Step} {s t : Machine}
    (hs : s.hooks = Machine.withRuntimeMembers.hooks)
    (hdoes : c.Does (Action.invokeAt c.module bound) op f s way t) : s.Adds c.module t [] :=
  ((Machine.Adds.refl c.module s).spent 1).trans
    (calm_step (f := f) hplain hcalls hop (s := { s with executed := s.executed + 1 }) hs hdoes.2)

theorem calm_ends {code : Stream} (hcode : ∀ k ∈ code, k.op.Reads c.module names) {p : Nat} {v : Value}
    {s t : Machine} (hs : s.hooks = Machine.withRuntimeMembers.hooks)
    (hends : c.Ends (Action.invokeAt c.module bound) code idle p f s v t) : s.Adds c.module t [] := by
  induction hends with
  | done hi hdoes => exact calm_does hplain hcalls (hcode _ (List.mem_of_getElem? hi)) hs hdoes
  | next hi hdoes hact _ ih =>
    obtain ⟨rfl, rfl⟩ := hact
    have hfirst := calm_does hplain hcalls (hcode _ (List.mem_of_getElem? hi)) hs hdoes
    exact hfirst.trans (ih (hfirst.hooks.trans hs))
  | jump hi hdoes _ _ ih =>
    have hfirst := calm_does hplain hcalls (hcode _ (List.mem_of_getElem? hi)) hs hdoes
    exact hfirst.trans (ih (hfirst.hooks.trans hs))

end Site

namespace Module.Reads

open SetterLoom.Action

variable {m : Module} {names : Set String}

theorem invoke_notMem (h : m.Reads names) : Surface.invoke ∉ names := fun hmem => (h.plain _ hmem).1 rfl

theorem runBody (h : m.Reads names) {bound : Nat} (hcalls : Site.CalmCalls m names bound) {i : MethodId}
    {d : Method} (hd : m.method? i = some d) (hname : d.name ∈ names) (this : Option Value)
    (arguments : List Value) : Calm m ((⟨m, d⟩ : Site).runBody (Action.invokeAt m bound) this arguments) := by
  unfold Site.runBody
  cases hbody : d.body with
  | none => exact calm_throw _
  | some body =>
    have hstart : Calm m ((⟨m, d⟩ : Site).startFrame body this arguments) := by
      unfold Site.startFrame
      split
      · exact calm_pure _
      · split
        · exact calm_pure _
        · exact calm_fault _
    refine hstart.bind fun f => ?_
    intro s x t hs hrun
    let leave (y : Except Error Value × Machine) := (y.1, { y.2 with depth := y.2.depth - 1 })
    cases hcode : (⟨m, d⟩ : Site).run (Action.invokeAt m bound) body.code f { s with depth := s.depth + 1 } with
    | mk result u =>
      obtain ⟨rfl, rfl⟩ : result = .ok x ∧ { u with depth := u.depth - 1 } = t :=
        Prod.mk.inj ((congrArg leave hcode).symm.trans hrun)
      exact (Site.calm_ends (c := ⟨m, d⟩) h.invoke_notMem hcalls (h.code i d body hd hname hbody)
        (s := { s with depth := s.depth + 1 }) hs (Site.ends_of_runFrom hcode)).ascend

theorem calmCalls (h : m.Reads names) (bound : Nat) : Site.CalmCalls m names bound := by
  induction bound with
  -- a call on one level reads only if those one level deeper do: it is
  -- answered by the comparison or runs the body
  | zero => exact fun _ _ _ _ _ _ => calm_fault _
  | succ bound ih =>
    intro i d this arguments hd hname s v t hs hrun
    obtain ⟨-, hrest⟩ := (invokeWith_run hd this arguments).mp hrun
    refine ((Machine.Adds.refl m s).entered hd).trans ?_
    have hhooks : (s.entered ⟨m, d⟩ i).hooks = Machine.withRuntimeMembers.hooks := hs
    obtain ⟨answer, u, hanswer, hgo⟩ := Steps.bind_ok.mp hrest
    have hu : (s.entered ⟨m, d⟩ i).Adds m u [] := by
      by_cases hbody : d.body.isSome
      · rw [Site.answer_of_body (c := ⟨m, d⟩) hbody this arguments hhooks] at hanswer
        obtain ⟨-, rfl⟩ := Prod.mk.inj hanswer
        exact .refl m _
      · obtain ⟨_, _, hget, hasked⟩ := Steps.bind_ok.mp hanswer
        obtain ⟨rfl, rfl⟩ := Steps.get_ok.mp hget
        obtain ⟨-, hraiser, haccessors⟩ := h.plain _ hname
        rw [hhooks] at hasked
        -- nothing but the comparison is looked for under a plain name
        split at hasked
        · rename_i hook hfind
          obtain rfl := RuntimeMember.of_find hfind hraiser haccessors
          have hmember : ∃ y, (objectEquals arguments).run.run (s.entered ⟨m, d⟩ i) = (.ok y, u) := by
            unfold Site.askHook at hasked
            simp only [RuntimeMember.hook, if_neg hbody] at hasked
            rw [Likeness.tryCatch_run] at hasked
            split at hasked
            · rename_i y z hok
              obtain ⟨y, _, hequals, hpure⟩ := Steps.bind_ok.mp hok
              obtain ⟨-, rfl⟩ := Prod.mk.inj hasked
              obtain ⟨-, rfl⟩ := Steps.pure_ok.mp hpure
              exact ⟨y, hequals⟩
            · cases (Prod.mk.inj hasked).1
          obtain ⟨y, hequals⟩ := hmember
          exact calm_objectEquals arguments hhooks hequals
        · obtain ⟨-, rfl⟩ := Steps.pure_ok.mp hasked
          exact .refl m _
    cases answer with
    | some v =>
      obtain ⟨-, rfl⟩ := Steps.pure_ok.mp hgo
      exact hu
    | none => exact hu.trans (h.runBody ih hd hname this arguments (hu.hooks.trans hhooks) hgo)

theorem runs (h : m.Reads names) {d : Method} {bound : Nat} {ops : List Op} {f g : Frame} {s t : Machine}
    (hops : ∀ op ∈ ops, op.Reads m names) (hs : s.hooks = Machine.withRuntimeMembers.hooks)
    (hruns : (⟨m, d⟩ : Site).Runs (Action.invokeAt m bound) ops f s g t) : s.Adds m t [] := by
  induction hruns with
  | nil => exact .refl m _
  | cons hdoes _ ih =>
    have hfirst := Site.calm_does (c := ⟨m, d⟩) h.invoke_notMem (h.calmCalls bound)
      (hops _ List.mem_cons_self) hs hdoes
    exact hfirst.trans (ih (fun op hop => hops op (List.mem_cons_of_mem _ hop)) (hfirst.hooks.trans hs))

end Module.Reads

end SetterLoom
