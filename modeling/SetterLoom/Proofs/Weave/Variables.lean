import SetterLoom.Proofs.Machine.Renaming
import SetterLoom.Proofs.Weave.Assigned
import SetterLoom.Proofs.Weave.Kinds

/-!
# Woven properties are variables

The properties that a compiler gives a field of their own are variables of their objects: getting one
gives the value that it was set to last. Weaving their setters leaves it at that, but for the dirty flag.
An assignment to a woven property sets the flag of the same object, if the flag is asked for, and no
assignment changes anything else that a property gives.

* `Variables.restraint`: the code that is not a setter leaves the fields of the properties alone.
* `Variables.assigns`: what a call of a setter changes.
* `variables_kept`: any number of accesses behind a pass.
-/

namespace SetterLoom
set_option autoImplicit false

/-- The property has a field of its own: the getter loads it and the setter stores into it. -/
structure Property.AutoIn (p : Property) (field : Field) (m : Module) : Prop where
  type : field.type = p.type
  getter : ∃ i d, p.getter = some i ∧ m.method? i = some d ∧ d.name = Surface.getter p.name
    ∧ d.Loads field
  setter : ∃ i d, p.setter = some i ∧ m.method? i = some d ∧ d.name = Surface.setter p.name
    ∧ d.Stores field

/-- Properties, each with its field. -/
abbrev Variables := List (Property × Field)

namespace Variables

variable (vars : Variables)

/-- The names of the setters. -/
def setters : List String := vars.map fun x => Surface.setter x.1.name

/-- The field is that of one of the properties. -/
def Held (f : Token) : Prop := ∃ x ∈ vars, x.2.token = f

/-- The method does not have the name of a setter. -/
def Open (m : Module) (i : MethodId) : Prop := ∀ d, m.method? i = some d → d.name ∉ vars.setters

/-- The operation stores into none of the fields and refers to no method with the name of a setter. -/
structure Avoids (m : Module) (op : Op) : Prop where
  field : ∀ f, op.operand = .field f → op.code = .stfld ∨ op.code = .ldflda → ¬ vars.Held f.token
  method : ∀ u, op.operand = .method u → vars.Open m u.method

/-- The properties are kept in fields of their own, which no code but their setters stores into, and no
other code refers to the setters. Those of a value type have no events. -/
structure Declared (m : Module) : Prop where
  auto : ∀ x ∈ vars, x.1.AutoIn x.2 m
  own : ∀ x ∈ vars, ∀ y ∈ vars, x.2.token = y.2.token ∨ x.1.setter = y.1.setter → x = y
  unmarked : ∀ x ∈ vars, ∀ i, x.1.setter = some i → m.isWoven i = false
  fresh : ∀ x ∈ vars, ∀ i d body, x.1.setter = some i → m.method? i = some d → d.body = some body →
    ∀ j ∈ body.code, ∀ n, m.serial ≤ n → j.label ≠ .drawn n
  values : ∀ x ∈ vars, (m.type? x.1.type).any (·.isValue) = true →
    ∀ e ∈ m.line x.1.type, e.2.events = []
  aside : ∀ i d body, m.method? i = some d → d.name ∉ vars.setters → d.body = some body →
    ∀ j ∈ body.code, vars.Avoids m j.op
  events : ∀ t d f, m.type? t = some d → f ∈ d.fields → f.name = Surface.changedEvent →
    ¬ vars.Held f.token
  accessors : ∀ t d, m.type? t = some d → ∀ e ∈ d.events, ∀ i, e.add = some i ∨ e.remove = some i →
    ∃ a, m.method? i = some a ∧ a.Accesses ∧ a.name ∉ vars.setters

/-- The plan weaves one of the properties and announces such properties only, by a method that is none of
the setters and without hooks; `changed` is the property that is the dirty flag of the type. -/
structure Planned (m : Module) (changed : Property → Option Property) (v : TypePlan × PropertyPlan) :
    Prop where
  property : ∃ f, (v.2.property, f) ∈ vars ∧ v.2.backing = some f
  dependents : ∀ p ∈ v.2.dependents, ∃ f, (p, f) ∈ vars
  noHooks : v.1.hooks = []
  invoker : ∀ i ∈ v.1.invoker.methods, vars.Open m i
  flag : v.1.dirtySetter = (changed v.2.property).bind (·.setter)
  changed : ∀ q, changed v.2.property = some q → q.name = dirtyFlagProperty ∧ ∃ f, (q, f) ∈ vars

variable {vars}

instance (f : Token) : Decidable (vars.Held f) :=
  inferInstanceAs (Decidable (∃ x ∈ vars, x.2.token = f))

instance (m : Module) (i : MethodId) : Decidable (vars.Open m i) :=
  decidable_of_iff (∀ d ∈ m.method? i, d.name ∉ vars.setters) Iff.rfl

theorem avoids_iff {m : Module} {op : Op} : vars.Avoids m op ↔
    match op.operand with
    | .field f => op.code = .stfld ∨ op.code = .ldflda → ¬ vars.Held f.token
    | .method u => vars.Open m u.method
    | _ => True := by
  constructor
  · rintro ⟨hfield, hmethod⟩
    split
    · exact hfield _ ‹_›
    · exact hmethod _ ‹_›
    · trivial
  · intro h
    constructor <;> intro _ hoperand <;> simpa [hoperand] using h

instance (m : Module) (op : Op) : Decidable (vars.Avoids m op) :=
  have : Decidable (match op.operand with
      | .field f => op.code = .stfld ∨ op.code = .ldflda → ¬ vars.Held f.token
      | .method u => vars.Open m u.method
      | _ => True) := by split <;> infer_instance
  decidable_of_iff _ avoids_iff.symm

/-! ## Names -/

private theorem setter_of_mem {name : String} (h : name ∈ vars.setters) :
    ∃ x ∈ vars, name = Surface.setter x.1.name := by
  obtain ⟨x, hx, rfl⟩ := List.mem_map.mp h
  exact ⟨x, hx, rfl⟩

private theorem head_setter (p : String) : (Surface.setter p).toList.head? = some 's' := by
  unfold Surface.setter
  rw [String.toList_append]
  rfl

private theorem notMem_setters {name : String} (h : name.toList.head? ≠ some 's') :
    name ∉ vars.setters := by
  intro hmem
  obtain ⟨x, -, rfl⟩ := setter_of_mem hmem
  exact h (head_setter _)

theorem getter_notMem (p : String) : Surface.getter p ∉ vars.setters := by
  refine notMem_setters ?_
  unfold Surface.getter
  rw [String.toList_append]
  show some 'g' ≠ some 's'
  decide

theorem delegateName_notMem (p : String) : delegateName p ∉ vars.setters := by
  refine notMem_setters ?_
  unfold delegateName
  rw [String.toList_append, String.toList_append]
  show some '<' ≠ some 's'
  decide

theorem constructor_notMem : Surface.constructor ∉ vars.setters := notMem_setters (by decide)

private theorem head_accessor {name : String} (p : String)
    (h : name = Surface.setter p ∨ name = Surface.getter p) :
    name.toList.head? = some 's' ∨ name.toList.head? = some 'g' := by
  rcases h with rfl | rfl
  · exact .inl (head_setter p)
  · unfold Surface.getter
    rw [String.toList_append]
    exact .inr rfl

theorem hook_of_accessor {c : CallName} (p : String)
    (h : c.method = Surface.setter p ∨ c.method = Surface.getter p) :
    Machine.withRuntimeMembers.hooks.find? c = none := by
  have hall : ∀ hook ∈ Machine.withRuntimeMembers.hooks, (hook.pattern.any fun pattern =>
      pattern.method.any fun name => name.toList.head? != some 's' && name.toList.head? != some 'g')
        = true := by
    decide +kernel
  refine List.find?_eq_none.mpr fun hook hmem hfits => ?_
  have hnamed := hall hook hmem
  unfold Hook.fits at hfits
  cases hpattern : hook.pattern with
  | none =>
    rw [hpattern] at hnamed
    cases hnamed
  | some pattern =>
    rw [hpattern, Option.any_some] at hfits hnamed
    cases hmethod : pattern.method with
    | none =>
      rw [hmethod] at hnamed
      cases hnamed
    | some name =>
      rw [hmethod, Option.any_some] at hnamed
      simp only [NamePattern.fits, hmethod, NamePattern.fitsPart, Bool.and_eq_true, beq_iff_eq] at hfits
      rw [hfits.2] at hnamed
      rcases head_accessor p h with hhead | hhead <;> simp [hhead] at hnamed

theorem runtime_of_mem : ∀ h ∈ Machine.withRuntimeMembers.hooks, ∃ member, h.action = .runtime member := by
  intro h hmem
  have hall : ∀ hook ∈ Machine.withRuntimeMembers.hooks,
      hook ∈ RuntimeMember.all.map RuntimeMember.hook := by
    decide +kernel
  obtain ⟨member, -, rfl⟩ := List.mem_map.mp (hall h hmem)
  cases member <;> exact ⟨_, rfl⟩

/-! ## The restraint -/

section Restraint

variable {options : Options} {resolver : Resolver} {visits : List (TypePlan × PropertyPlan)}
  {m₀ m : Module} {changed : Property → Option Property}
  (hdeclared : vars.Declared m₀) (hplanned : ∀ v ∈ visits, vars.Planned m₀ changed v)
  (hserves : resolver.Serves m₀ m (vars.Open m))
  (hstage : Weaving.Stage options resolver visits m₀ m)

include hstage in
theorem open_of_old {i : MethodId} (h : vars.Open m₀ i) : vars.Open m i := by
  intro d hd
  cases hstage.kinds i d hd with
  | kept old => exact h d old
  | handler _ _ name _ =>
    rw [name]
    exact delegateName_notMem _
  | @woven d _ _ _ _ _ _ _ _ _ old _ _ _ => exact (h d old :)

include hdeclared hplanned in
theorem exists_woven {v : TypePlan × PropertyPlan} (hv : v ∈ visits) {i : MethodId} {d : Method}
    (hset : v.2.property.setter = some i) (hd : m₀.method? i = some d) :
    ∃ x ∈ vars, v.2.property = x.1 ∧ v.2.backing = some x.2 ∧ d.name = Surface.setter x.1.name
      ∧ d.Stores x.2 := by
  obtain ⟨f, hmem, hbacking⟩ := (hplanned v hv).property
  obtain ⟨j, d', hset', hd', hname, hstores⟩ := (hdeclared.auto _ hmem).setter
  obtain rfl := Option.some.inj (hset'.symm.trans hset)
  obtain rfl := Option.some.inj (hd'.symm.trans hd)
  exact ⟨_, hmem, rfl, hbacking, hname, hstores⟩

include hdeclared hplanned hstage in
theorem kept_of_open {i : MethodId} {d : Method} (hd : m₀.method? i = some d)
    (hopen : d.name ∉ vars.setters) : m.method? i = some d := by
  obtain ⟨d', hd'⟩ := hstage.old i d hd
  cases hstage.kinds i d' hd' with
  | kept old => rw [hd', ← hd, old]
  | handler _ isNew => rw [isNew] at hd; cases hd
  | @woven _ _ _ _ _ _ _ _ hv setter old _ _ _ =>
    obtain rfl := Option.some.inj (old.symm.trans hd)
    obtain ⟨x, hx, -, -, hname, -⟩ := exists_woven hdeclared hplanned hv setter old
    exact absurd (List.mem_map.mpr ⟨x, hx, hname.symm⟩) hopen

include hdeclared hstage in
theorem events_aside {t : TypeId} {f : Field} (h : m.fieldInLine? t Surface.changedEvent = some f) :
    ¬ vars.Held f.token := by
  obtain ⟨e, he, hfield⟩ := List.exists_of_findSome?_eq_some h
  obtain ⟨d, hd, hshape⟩ := hstage.grown.type? (Module.type?_of_mem_line he)
  have hfields : e.2.shape.fields = d.shape.fields := by rw [hshape]
  have hmem : f ∈ d.fields := by
    rw [← show e.2.fields = d.fields from hfields]
    exact List.mem_of_find?_eq_some hfield
  have hname : f.name = Surface.changedEvent := by
    have := List.find?_some hfield
    simpa using this
  exact hdeclared.events e.1 d f hd hmem hname

/-- The code of a module behind a pass, but for the setters, is held to leave the fields of the properties
alone. -/
def restraint (vars : Variables) (m : Module)
    (hevents : ∀ t f, m.fieldInLine? t Surface.changedEvent = some f → ¬ vars.Held f.token) :
    Restraint m where
  held := vars.Held
  callable := vars.Open m
  hooks := Machine.withRuntimeMembers.hooks
  dispatched := fun hi hd hd' hname e he => by
    obtain rfl := Option.some.inj (hd'.symm.trans he)
    rw [hname]
    exact hi _ hd
  constructors := fun hd hname e he => by
    obtain rfl := Option.some.inj (hd.symm.trans he)
    rw [hname]
    exact constructor_notMem
  runtime := runtime_of_mem
  events := fun _ _ _ _ => hevents

variable {hevents : ∀ t f, m.fieldInLine? t Surface.changedEvent = some f → ¬ vars.Held f.token}

include hserves in
theorem pointable_of_open {i : MethodId} {d : Method} (hd : m.method? i = some d)
    (hopen : vars.Open m i) : (vars.restraint m hevents).worlds.pointable d.token := by
  intro j e he htoken
  obtain rfl := hserves.unique j i e d he hd htoken
  exact hopen

include hserves hstage in
theorem allowed_of_avoids {op : Op} (h : vars.Avoids m₀ op) :
    (vars.restraint m hevents).likeness.Allowed op where
  field := h.field
  method := fun u hu => open_of_old hstage (h.method u hu)
  pointer := fun u _ hu _ hd =>
    pointable_of_open hserves hd (open_of_old hstage (h.method u hu))

include hdeclared hplanned hstage in
theorem announces {v : TypePlan × PropertyPlan} (hv : v ∈ visits) (n : Module) :
    (vars.restraint m hevents).Announces ⟨options, resolver, n, v.1, v.2⟩ where
  hooks called target hook hhook := by
    unfold BlockContext.hookFor? TypePlan.hook? at hhook
    dsimp only at hhook
    rw [(hplanned v hv).noHooks] at hhook
    split at hhook <;> cases hhook
  invoker i hi := open_of_old hstage ((hplanned v hv).invoker i hi)
  getters p hp i hi := by
    obtain ⟨f, hmem⟩ : ∃ f, (p, f) ∈ vars := by
      rcases List.mem_append.mp hp with hp | hp
      · exact (hplanned v hv).dependents p (PropertyPlan.mem_of_mem_distinctFrom hp)
      · obtain ⟨f, hmem, -⟩ := (hplanned v hv).property
        rw [List.mem_singleton.mp hp]
        exact ⟨f, hmem⟩
    obtain ⟨j, d, hj, hd, hname, -⟩ := (hdeclared.auto _ hmem).getter
    obtain rfl := Option.some.inj (hj.symm.trans hi)
    refine open_of_old hstage fun e he => ?_
    obtain rfl := Option.some.inj (hd.symm.trans he)
    rw [hname]
    exact getter_notMem _

include hdeclared hplanned hserves hstage in
theorem quiet : (vars.restraint m hevents).Quiet := by
  intro i d body hopen hd hbody j hj
  cases hstage.kinds i d hd with
  | kept old =>
    exact allowed_of_avoids hserves hstage
      (hdeclared.aside i d body old (hopen d hd) hbody j hj)
  | @handler _ v n hv _ _ handles =>
    rcases handles.inHandler hbody j hj with hop | hop | ⟨target, htarget, before, after, hop⟩
    · rw [hop]
      exact ⟨nofun, nofun, nofun⟩
    · rw [hop]
      exact ⟨nofun, nofun, nofun⟩
    · exact (announces hdeclared hplanned hstage hv n).allowed_announceOps htarget before after _ hop
  | @woven e _ _ _ _ _ _ _ hv setter old _ _ _ =>
    obtain ⟨x, hx, -, -, hname, -⟩ := exists_woven hdeclared hplanned hv setter old
    exact absurd (List.mem_map.mpr ⟨x, hx, hname.symm⟩) (hopen _ hd)

include hdeclared hplanned hserves hstage in
theorem follows {ctx : BlockContext} {body result : Body}
    {subscription : Option (Field × Event × MethodId)} {called : List String}
    {before : String → Bool → UInt16}
    {l : Layout ctx subscription called (ctx.property.anchors body.code).1 before}
    (laced : Weaving.Laced m₀ m body l result) (hresolver : ctx.resolver = resolver)
    {x : Property × Field} (hx : x ∈ vars) (hproperty : ctx.property.property = x.1)
    (hbacking : ctx.property.backing = some x.2) {field : Field} {event : Event} {handler : MethodId}
    (hsome : subscription = some (field, event, handler)) :
    (vars.restraint m hevents).Follows ctx field event handler := by
  obtain ⟨hfield, hnone, ⟨d, -, hd, hname, -⟩, n, hn, hpublic⟩ := laced.follows field event handler hsome
  obtain rfl := Option.some.inj (hbacking.symm.trans hfield)
  rw [hproperty] at hpublic
  obtain ⟨e, he, hevent⟩ := Module.exists_of_publicEvent? hpublic
  obtain ⟨t, ht, hshape⟩ := hn.exists_of_mem_line he
  have hevents' : e.2.events = t.events := by
    have hsame : t.shape.events = e.2.shape.events := by rw [hshape]
    exact hsame.symm
  refine ⟨?_, fun i hi => hserves.equals _ i laced.grown laced.onward (hresolver ▸ hi),
    fun i hi => hserves.makes _ i laced.grown laced.onward (hresolver ▸ hi), ?_, fun i hi => ?_⟩
  · rw [laced.grown.any_isValue, (hdeclared.auto x hx).type]
    by_contra hvalue
    have hempty := hdeclared.values x hx (by simpa using hvalue) _ ht
    rw [hevents', hempty] at hevent
    cases hevent
  · have hopen : vars.Open m handler := by
      intro d' hd'
      obtain rfl := Option.some.inj (hd.symm.trans hd')
      rw [hname]
      exact delegateName_notMem _
    exact ⟨hopen, d, hd, pointable_of_open hserves hd hopen⟩
  · rw [hevents'] at hevent
    obtain ⟨a, ha, haccesses, hopen⟩ :=
      hdeclared.accessors _ t (Module.type?_of_mem_line ht) event hevent i hi
    have hkept := kept_of_open hdeclared hplanned hstage ha hopen
    refine ⟨fun a' ha' => ?_, a, hkept, haccesses⟩
    obtain rfl := Option.some.inj (hkept.symm.trans ha')
    exact hopen

/-- The property that is set along with another one: the dirty flag, if that is asked for and the other
property is woven, is not the flag itself and does not ask to keep it. -/
def flagOf (options : Options) (visits : List (TypePlan × PropertyPlan))
    (changed : Property → Option Property) (p : Property) : Option Property :=
  if options.dirtyFlag && p.name != dirtyFlagProperty && !p.hasAttribute Surface.keepsFlag
      && visits.any fun v => v.2.property == p then
    changed p
  else none

theorem anchors_auto {plan : PropertyPlan} {field : Field} (hbacking : plan.backing = some field)
    {code : Stream} (hops : code.map (·.op) = [.ldarg 0, .ldarg 1, .stfld field, .ret]) :
    plan.anchors code = ([3], true) := by
  obtain ⟨i₀, i₁, i₂, i₃, rfl, h₀, h₁, h₂, h₃⟩ := Stream.eq_of_four hops
  have hstores : Stream.stores [i₀, i₁, i₂, i₃] field.name = [3] := by
    simp [Stream.stores, Stream.storesFrom, h₀, h₁, h₂, h₃, Op.storesTo, Op.addresses, Op.ldarg,
      Op.stfld, Op.ret, Op.field?]
  rw [PropertyPlan.fst_anchors_of_stores hbacking (by rw [hstores]; exact List.cons_ne_nil _ _), hstores]

variable (hwoven : ∀ v ∈ visits, ∀ i, v.2.property.setter = some i → m.isWoven i = true)

include hdeclared hplanned hserves hstage hwoven in
theorem assigns_of_flags {x : Property × Field} (hx : x ∈ vars) {i : MethodId}
    (hset : x.1.setter = some i) {type : Token} {flag : Option Token}
    (hflags : ∀ v ∈ visits, v.2.property = x.1 → ∀ n,
      (vars.restraint m hevents).Flags ⟨options, resolver, n, v.1, v.2⟩ type flag)
    (hnone : (∀ v ∈ visits, v.2.property ≠ x.1) → flag = none) :
    (vars.restraint m hevents).Assigns i type (Cells.assign x.2.token flag) := by
  obtain ⟨j, d₀, hset', hd₀, hname, hstores⟩ := (hdeclared.auto x hx).setter
  obtain rfl := Option.some.inj (hset'.symm.trans hset)
  have hhook : ∀ d : Method, d.name = d₀.name →
      (vars.restraint m hevents).hooks.find? (⟨m, d⟩ : Site).callName = none := fun d hd =>
    hook_of_accessor x.1.name (.inl (hd.trans hname))
  obtain ⟨d, hd⟩ := hstage.old j d₀ hd₀
  -- a setter that was not woven stores its argument; a woven one does
  -- so besides what was put around the store
  cases hstage.kinds j d hd with
  | kept old =>
    obtain rfl := Option.some.inj (old.symm.trans hd₀)
    have hunwoven : ∀ v ∈ visits, v.2.property ≠ x.1 := by
      intro v hv heq
      have hmarked := hwoven v hv j (heq ▸ hset)
      rw [Module.isWoven_eq hd, ← Module.isWoven_eq hd₀, hdeclared.unmarked x hx j hset] at hmarked
      cases hmarked
    rw [hnone hunwoven]
    exact Restraint.assigns_auto hd hstores (hhook d rfl)
  | handler _ isNew => rw [isNew] at hd₀; cases hd₀
  | @woven e v n body result _ _ _ hv setter old body_eq l laced =>
    obtain rfl := Option.some.inj (old.symm.trans hd₀)
    obtain ⟨y, hy, hproperty, hbacking, -, -⟩ := exists_woven hdeclared hplanned hv setter old
    have hsame : y = x := hdeclared.own y hy x hx (.inr (by rw [← hproperty, setter, hset]))
    subst hsame
    obtain ⟨body', hbody', hops⟩ := hstores.code
    obtain rfl := Option.some.inj (hbody'.symm.trans body_eq)
    obtain ⟨count, hlabels⟩ := laced.labels
    exact Layout.assigns_of_store (quiet hdeclared hplanned hserves hstage)
      (announces hdeclared hplanned hstage hv n)
      (fun g event handler hsome => follows hdeclared hplanned hserves hstage laced rfl hy hproperty
        hbacking hsome)
      (hflags v hv hproperty n) hops (congrArg Prod.fst (anchors_auto hbacking hops)) laced.anchored hlabels
      (fun k hk num hnum => hdeclared.fresh y hy j e body' hset hd₀ body_eq k hk num
        (Nat.le_trans laced.grown.serial hnum)) hd rfl laced.code hstores.isInstance (hhook _ rfl)

include hstage in
theorem signature_of_kind {i : MethodId} {d d₀ : Method} (hd : m.method? i = some d)
    (hd₀ : m₀.method? i = some d₀) :
    d.isStatic = d₀.isStatic ∧ d.params = d₀.params ∧ d.returns = d₀.returns := by
  cases hstage.kinds i d hd with
  | kept old =>
    obtain rfl := Option.some.inj (old.symm.trans hd₀)
    exact ⟨rfl, rfl, rfl⟩
  | handler _ isNew => rw [isNew] at hd₀; cases hd₀
  | woven _ _ old _ _ _ =>
    obtain rfl := Option.some.inj (old.symm.trans hd₀)
    exact ⟨rfl, rfl, rfl⟩

include hdeclared hplanned hserves hstage hwoven in
/-- A call of a setter on an object of the type stores the argument, and sets the flag of the object if
the property has one there. -/
theorem assigns {x : Property × Field} (hx : x ∈ vars) {i : MethodId} (hset : x.1.setter = some i)
    {type : Token}
    (hreached : ∀ q j d, flagOf options visits changed x.1 = some q → q.setter = some j →
      m.method? j = some d → m.reached type j d = j) :
    ∃ flag : Option Token, Option.Rel (fun k q => ∃ f, (q, f) ∈ vars ∧ f.token = k) flag
        (flagOf options visits changed x.1)
      ∧ (vars.restraint m hevents).Assigns i type (Cells.assign x.2.token flag) := by
  cases hflag : flagOf options visits changed x.1 with
  | none =>
    refine ⟨none, .none, assigns_of_flags hdeclared hplanned hserves hstage hwoven hx hset
      (fun v hv hproperty n => .off ?_) fun _ => rfl⟩
    have hlisted : visits.any (fun u => u.2.property == x.1) = true :=
      List.any_eq_true.mpr ⟨v, hv, by rw [hproperty]; exact beq_self_eq_true _⟩
    have hdirty := (hplanned v hv).flag
    unfold flagOf at hflag
    unfold BlockContext.dirtySetter?
    dsimp only
    rw [hlisted, Bool.and_true] at hflag
    rw [hproperty] at hdirty ⊢
    split at hflag
    · rename_i hcond
      rw [if_pos hcond, hdirty, hflag]
      rfl
    · rename_i hcond
      rw [if_neg hcond]
  | some q =>
    have hcond := hflag
    unfold flagOf at hcond
    split at hcond
    swap
    · cases hcond
    rename_i hgate
    obtain ⟨hgate, hlisted⟩ := Bool.and_eq_true_iff.mp hgate
    obtain ⟨u, hu, hproperty⟩ := List.any_eq_true.mp hlisted
    have hproperty := eq_of_beq hproperty
    obtain ⟨hname, f, hq⟩ := (hplanned u hu).changed q (hproperty ▸ hcond)
    obtain ⟨j, e₀, hj, he₀, -, hstores⟩ := (hdeclared.auto _ hq).setter
    obtain ⟨e, he⟩ := hstage.old j e₀ he₀
    obtain ⟨hstatic, hparams, hreturns⟩ := signature_of_kind hstage he he₀
    -- the setter of the flag sets no flag
    have hflagged : (vars.restraint m hevents).Assigns j type (Cells.assign f.token none) := by
      refine assigns_of_flags hdeclared hplanned hserves hstage hwoven hq hj
        (fun v hv hsame n => .off ?_) fun _ => rfl
      unfold BlockContext.dirtySetter?
      dsimp only
      rw [hsame, hname]
      simp
    refine ⟨some f.token, .some ⟨f, hq, rfl⟩, assigns_of_flags hdeclared hplanned hserves hstage
      hwoven hx hset (fun v hv hsame n => ?_) fun hunlisted => absurd hproperty (hunlisted u hu)⟩
    refine .on f.token ?_ he (hstatic.trans hstores.isInstance)
      ((congrArg List.length hparams).trans hstores.oneParam) (hreturns.trans hstores.noResult) ?_
    · unfold BlockContext.dirtySetter?
      dsimp only
      rw [hsame, if_pos hgate, (hplanned v hv).flag, hsame, hcond, Option.bind_some, hj]
    · rw [hreached q j e hflag hj he]
      exact hflagged

include hdeclared hplanned hstage in
/-- A call of a getter gives the value that is in the field, or the default of the property's type. -/
theorem gets {x : Property × Field} (hx : x ∈ vars) {i : MethodId} (hget : x.1.getter = some i)
    {bound : Nat} {r : HeapRef} {type : Token} {fields : TokenMap Value} {s t : Machine} {v : Value}
    {cells : Cells} (hr : s.heap.get? r = some (.object type fields))
    (hs : (vars.restraint m hevents).Tame s) (hcells : (vars.restraint m hevents).Holds cells s)
    (hrun : (Action.invokeAt m bound i (some (.ref r)) []).run.run s = (.ok v, t)) :
    v = (cells r x.2.token).getD (m.defaultOf x.1.type) ∧ (vars.restraint m hevents).Tame t
      ∧ (vars.restraint m hevents).Holds cells t := by
  cases bound with
  | zero => cases (Prod.mk.inj hrun).1
  | succ bound =>
    obtain ⟨j, d, hj, hd₀, hname, hloads⟩ := (hdeclared.auto x hx).getter
    obtain rfl := Option.some.inj (hj.symm.trans hget)
    have hd := kept_of_open hdeclared hplanned hstage hd₀ (by rw [hname]; exact getter_notMem _)
    have hhook : s.hooks.find? (⟨m, d⟩ : Site).callName = none := by
      rw [hs.hooks]
      exact hook_of_accessor x.1.name (.inr hname)
    obtain ⟨-, -, rfl, rfl⟩ := (Action.getter_run hd hloads hhook hr).mp hrun
    refine ⟨?_, (hs.learn hd).update rfl rfl rfl, hcells⟩
    rw [← hcells r x.2.token ⟨x, hx, rfl⟩, Heap.cell_of_object hr, ← (hdeclared.auto x hx).type]
    rfl

end Restraint

end Variables

/-! ## Uses of properties -/

/-- A use of a property of an object: the value that it gave, or the value that it was given. -/
inductive PropertyUse where
  | get (object : HeapRef) (property : Property) (value : Value)
  | set (object : HeapRef) (property : Property) (value : Value)

namespace PropertyUse

def object : PropertyUse → HeapRef
  | .get r _ _ | .set r _ _ => r

def property : PropertyUse → Property
  | .get _ p _ | .set _ p _ => p

def value : PropertyUse → Value
  | .get _ _ v | .set _ _ v => v

/-- What the properties of objects were set to last, behind a use: setting a property sets its flag
too, and changes nothing else. -/
def replay (flag : Property → Option Property) (store : HeapRef → Property → Option Value) :
    PropertyUse → HeapRef → Property → Option Value
  | .get _ _ _ => store
  | .set r p v => fun q p' =>
    if q = r ∧ flag p = some p' then some (.int 1) else if q = r ∧ p' = p then some v else store q p'

end PropertyUse

/-- Uses one after the other, each of which succeeds. -/
inductive PropertyUses (m : Module) : Machine → List PropertyUse → Machine → Prop
  | done (s : Machine) : PropertyUses m s [] s
  | get {s t u : Machine} {r : HeapRef} {p : Property} {v : Value} {rest : List PropertyUse}
    (gives : (Action.getProperty m r p).run.run s = (.ok v, t)) (more : PropertyUses m t rest u) :
    PropertyUses m s (.get r p v :: rest) u
  | set {s t u : Machine} {r : HeapRef} {p : Property} {v : Value} {rest : List PropertyUse}
    (succeeds : (Action.setProperty m r p v).run.run s = (.ok (), t)) (more : PropertyUses m t rest u) :
    PropertyUses m s (.set r p v :: rest) u

/-- The machine behind the uses, if each of them succeeds and gives its value. -/
def PropertyUse.run? (m : Module) : List PropertyUse → Machine → Option Machine
  | [], s => some s
  | .get r p v :: rest, s =>
    match (Action.getProperty m r p).run.run s with
    | (.ok x, t) => if x = v then run? m rest t else none
    | (.error _, _) => none
  | .set r p v :: rest, s =>
    match (Action.setProperty m r p v).run.run s with
    | (.ok _, t) => run? m rest t
    | (.error _, _) => none

theorem PropertyUse.run?_eq_some {m : Module} {calls : List PropertyUse} {s t : Machine} :
    run? m calls s = some t ↔ PropertyUses m s calls t := by
  constructor
  · intro h
    induction calls generalizing s with
    | nil =>
      obtain rfl := Option.some.inj h
      exact .done s
    | cons a rest ih =>
      cases a with
      | get r p v =>
        unfold run? at h
        split at h
        · rename_i x u hgives
          split at h
          · rename_i heq
            subst heq
            exact .get hgives (ih h)
          · cases h
        · cases h
      | set r p v =>
        unfold run? at h
        split at h
        · rename_i hsucceeds
          exact .set hsucceeds (ih h)
        · cases h
  · intro h
    induction h with
    | done => rfl
    | get hgives _ ih =>
      simp only [run?, hgives, if_true]
      exact ih
    | set hsucceeds _ ih =>
      simp only [run?, hsucceeds]
      exact ih

theorem PropertyUses.of_any {m : Module} {calls : List PropertyUse} {s : Machine} {check : Machine → Bool}
    (h : (PropertyUse.run? m calls s).any check = true) : ∃ t, PropertyUses m s calls t ∧ check t = true := by
  obtain ⟨t, ht, hcheck⟩ := (Option.any_eq_true _ _).mp h
  exact ⟨t, PropertyUse.run?_eq_some.mp ht, hcheck⟩

/-- The use is of one of the properties, with a value that is no address, on an object on which the
setter of the flag is the one that is called. -/
structure PropertyUse.Fits (a : PropertyUse) (vars : Variables) (m : Module)
    (flag : Property → Option Property) (s : Machine) : Prop where
  property : ∃ f, (a.property, f) ∈ vars
  value : (∀ t, a.value ≠ .function t) ∧ ∀ r f, a.value ≠ .address r f
  object : ∃ type fields, s.heap.get? a.object = some (.object type fields)
    ∧ ∀ q j d, flag a.property = some q → q.setter = some j → m.method? j = some d →
      m.reached type j d = j

theorem PropertyUse.Fits.later {a : PropertyUse} {vars : Variables} {m : Module}
    {flag : Property → Option Property} {s t : Machine} (h : a.Fits vars m flag s) (hlater : s.Later t) :
    a.Fits vars m flag t := by
  obtain ⟨type, fields, hr, hreached⟩ := h.object
  obtain ⟨fields', hr'⟩ := hlater.object hr
  exact ⟨h.property, h.value, type, fields', hr', hreached⟩

/-- A machine that answers for the members of the runtime only, in which nothing was run and nothing was
stored in an object. -/
structure Machine.Fresh (s : Machine) : Prop where
  hooks : s.hooks = Machine.withRuntimeMembers.hooks
  functions : s.functions = .empty
  objects : ∀ r o, s.heap.get? r = some o → (∃ t, o = .object t .empty) ∨ ∃ text, o = .string text

theorem Machine.Fresh.cell_eq_none {s : Machine} (h : s.Fresh) (r : HeapRef) (f : Token) :
    s.heap.cell r f = none := by
  unfold Heap.cell
  split
  · rename_i t fields hr
    rcases h.objects r _ hr with ⟨t', heq⟩ | ⟨text, heq⟩
    · cases heq
      exact TokenMap.get?_empty f
    · cases heq
  · rfl

namespace Restraint

variable {m : Module} {R : Restraint m}

/-- A machine in which nothing was run leads to restrained code only. -/
theorem tame_of_fresh {s : Machine} (hhooks : R.hooks = Machine.withRuntimeMembers.hooks)
    (h : s.Fresh) : R.Tame s where
  hooks := h.hooks.trans hhooks.symm
  functions t i hi := by
    rw [h.functions, TokenMap.get?_empty] at hi
    cases hi
  objects r o ho := by
    rcases h.objects r o ho with ⟨t, rfl⟩ | ⟨text, rfl⟩
    · refine .object t fun f => ?_
      rw [TokenMap.get?_empty]
      exact .none
    · exact .string text

theorem trusts_of_data {v : Value} (h : (∀ t, v ≠ .function t) ∧ ∀ r f, v ≠ .address r f) :
    R.Trusts v := by
  cases v with
  | void => exact .void
  | int n => exact .int n
  | null => exact .null
  | ref r => exact .ref rfl
  | struct t => exact .struct t
  | address r f => exact absurd rfl (h.2 r f)
  | function t => exact absurd rfl (h.1 t)

end Restraint

namespace Action

variable {m : Module} {s t : Machine}

theorem discard_ok {α : Type} {a : Action α} (h : (discard a : Action Unit).run.run s = (.ok (), t)) :
    ∃ x, a.run.run s = (.ok x, t) := by
  have hbind : (a >>= fun _ => pure () : Action Unit).run.run s = (.ok (), t) := h
  rw [bind_run] at hbind
  split at hbind
  · rename_i x u hrun
    obtain ⟨-, rfl⟩ := Prod.mk.inj hbind
    exact ⟨x, hrun⟩
  · cases (Prod.mk.inj hbind).1

theorem invokeAt_of_setProperty {r : HeapRef} {p : Property} {v : Value} {i : MethodId} (hset : p.setter = some i)
    (h : (setProperty m r p v).run.run s = (.ok (), t)) :
    ∃ x bound, (invokeAt m (bound + 1) i (some (.ref r)) [v]).run.run s = (.ok x, t) := by
  unfold setProperty at h
  rw [hset] at h
  obtain ⟨x, hinvoke⟩ := discard_ok h
  rw [invoke_run] at hinvoke
  exact ⟨x, _, hinvoke⟩

end Action

theorem PropertyUses.later {m : Module} {s t : Machine} {calls : List PropertyUse}
    (h : PropertyUses m s calls t) : s.Later t := by
  induction h with
  | done => exact .refl _
  | @get _ _ _ _ p _ _ gives _ ih =>
    unfold Action.getProperty at gives
    cases hget : p.getter with
    | some i =>
      rw [hget] at gives
      simp only [Action.invoke_run] at gives
      exact (later_invokeAt gives).1.trans ih
    | none =>
      rw [hget] at gives
      cases (Prod.mk.inj gives).1
  | @set _ _ _ _ p _ _ succeeds _ ih =>
    cases hset : p.setter with
    | some i =>
      obtain ⟨x, bound, hcalled⟩ := Action.invokeAt_of_setProperty hset succeeds
      exact (later_invokeAt hcalled).1.trans ih
    | none =>
      unfold Action.setProperty at succeeds
      rw [hset] at succeeds
      cases (Prod.mk.inj succeeds).1

namespace Variables

section Uses

variable {vars : Variables} {options : Options} {resolver : Resolver}
  {visits : List (TypePlan × PropertyPlan)} {m₀ m : Module} {changed : Property → Option Property}
  (hdeclared : vars.Declared m₀) (hplanned : ∀ v ∈ visits, vars.Planned m₀ changed v)
  (hserves : resolver.Serves m₀ m (vars.Open m))
  (hstage : Weaving.Stage options resolver visits m₀ m)
  (hwoven : ∀ v ∈ visits, ∀ i, v.2.property.setter = some i → m.isWoven i = true)
  {hevents : ∀ t f, m.fieldInLine? t Surface.changedEvent = some f → ¬ vars.Held f.token}

theorem holds_of_fresh {s : Machine} (h : s.Fresh) :
    (vars.restraint m hevents).Holds (fun _ _ => none) s := fun r f _ => h.cell_eq_none r f

include hdeclared in
theorem token_eq_iff {x y : Property × Field} (hx : x ∈ vars) (hy : y ∈ vars) :
    x.2.token = y.2.token ↔ x.1 = y.1 := by
  constructor
  · intro h
    rw [hdeclared.own x hx y hy (.inl h)]
  · intro h
    rw [hdeclared.own x hx y hy (.inr (by rw [h]))]

/-- The fields hold what the properties were set to last. -/
def Agree (vars : Variables) (cells : Cells) (store : HeapRef → Property → Option Value) : Prop :=
  ∀ r, ∀ x ∈ vars, cells r x.2.token = store r x.1

include hdeclared in
theorem Agree.replay {cells : Cells} {store : HeapRef → Property → Option Value} {flag : Option Token}
    {flagged : Property → Option Property} {x : Property × Field} (h : vars.Agree cells store)
    (hx : x ∈ vars)
    (hflag : Option.Rel (fun k q => ∃ f, (q, f) ∈ vars ∧ f.token = k) flag (flagged x.1)) (r : HeapRef)
    (v : Value) :
    vars.Agree (Cells.assign x.2.token flag cells r v)
      ((PropertyUse.set r x.1 v).replay flagged store) := by
  intro q y hy
  have hown : y.2.token = x.2.token ↔ y.1 = x.1 := token_eq_iff hdeclared hy hx
  unfold PropertyUse.replay
  cases hp : flagged x.1 with
  | none =>
    rw [hp] at hflag
    cases hflag
    show Cells.set cells r x.2.token v q y.2.token = _
    unfold Cells.set
    simp only [hown, h q y hy, hp, reduceCtorEq, and_false, if_false]
  | some p =>
    rw [hp] at hflag
    cases hflag with
    | some hfield =>
      obtain ⟨f, hf, rfl⟩ := hfield
      have hown' : y.2.token = f.token ↔ p = y.1 := (token_eq_iff hdeclared hy hf).trans eq_comm
      show Cells.set (Cells.set cells r x.2.token v) r f.token (.int 1) q y.2.token = _
      unfold Cells.set
      simp only [hown, hown', h q y hy, hp, Option.some.injEq]

include hdeclared hplanned hserves hstage hwoven in
theorem gives {s t : Machine} {calls : List PropertyUse} (hcalls : PropertyUses m s calls t)
    (hfits : ∀ a ∈ calls, a.Fits vars m (flagOf options visits changed) s) {cells : Cells}
    {store : HeapRef → Property → Option Value} (hs : (vars.restraint m hevents).Tame s)
    (hcells : (vars.restraint m hevents).Holds cells s) (hagree : vars.Agree cells store)
    {front back : List PropertyUse} {r : HeapRef} {p : Property} {v : Value}
    (hsplit : calls = front ++ .get r p v :: back) :
    v = ((front.foldl (fun store a => a.replay (flagOf options visits changed) store) store) r p).getD
      (m.defaultOf p.type) := by
  -- by induction on the uses, with a store of what the properties
  -- were set to that agrees with the cells
  induction hcalls generalizing front cells store with
  | done => simp at hsplit
  | @get s t u r' p' v' rest hgives hmore ih =>
    obtain ⟨⟨f, hmem⟩, -, type, fields, hr, -⟩ := hfits _ List.mem_cons_self
    obtain ⟨i, d, hget, -⟩ := (hdeclared.auto _ hmem).getter
    have hrun : (Action.invokeAt m (Action.nesting s) i (some (.ref r')) []).run.run s = (.ok v', t) := by
      unfold Action.getProperty at hgives
      rw [show p'.getter = some i from hget] at hgives
      rwa [Action.invoke_run] at hgives
    obtain ⟨hv, htame, hholds⟩ := gets hdeclared hplanned hstage hmem hget hr hs hcells hrun
    obtain ⟨hlater, -⟩ := later_invokeAt hrun
    cases front with
    | nil =>
      obtain ⟨hhead, -⟩ := List.cons.inj hsplit
      cases hhead
      rw [hv]
      exact congrArg (·.getD (m.defaultOf p.type)) (hagree r (p, f) hmem)
    | cons a front =>
      obtain ⟨rfl, hrest⟩ := List.cons.inj hsplit
      have hrest : rest = front ++ .get r p v :: back := hrest
      rw [List.foldl_cons]
      exact ih (fun b hb => (hfits b (List.mem_cons_of_mem _ hb)).later hlater) htame hholds hagree hrest
  | @set s t u r' p' v' rest hsucceeds hmore ih =>
    obtain ⟨⟨f, hmem⟩, hdata, type, fields, hr, hreached⟩ := hfits _ List.mem_cons_self
    obtain ⟨i, d, hset, -⟩ := (hdeclared.auto _ hmem).setter
    obtain ⟨x, _, hrun⟩ := Action.invokeAt_of_setProperty hset hsucceeds
    obtain ⟨flag, hflag, hassigns⟩ := assigns hdeclared hplanned hserves hstage hwoven hmem hset
      hreached
    obtain ⟨htame, hholds⟩ := hassigns hr hs hcells (Restraint.trusts_of_data hdata) hrun
    obtain ⟨hlater, -⟩ := later_invokeAt hrun
    cases front with
    | nil => cases (List.cons.inj hsplit).1
    | cons a front =>
      obtain ⟨rfl, hrest⟩ := List.cons.inj hsplit
      have hrest : rest = front ++ .get r p v :: back := hrest
      rw [List.foldl_cons]
      exact ih (fun b hb => (hfits b (List.mem_cons_of_mem _ hb)).later hlater) htame hholds
        (hagree.replay hdeclared hmem hflag r' v') hrest

end Uses

end Variables

/-! ## A node with a dirty flag -/

namespace Sprout

def flag : Field := ⟨⟨4⟩, "<IsChanged>k__BackingField", .privateBit, ⟨7⟩⟩

def isChanged : Property := ⟨⟨22⟩, dirtyFlagProperty, ⟨7⟩, some ⟨8⟩, some ⟨9⟩, []⟩

/-- The tree whose nodes follow their child, with a dirty flag in each node. -/
def module : Module where
  name := "Sprout"
  types := (Sapling.module Sapling.plain).types.modify 1 (·.map fun d => { d with
    fields := d.fields ++ [flag], methods := d.methods ++ [⟨8⟩, ⟨9⟩],
    properties := d.properties ++ [isChanged] })
  methods := (Sapling.module Sapling.plain).methods ++ #[
    some (Sapling.method 38 "get_IsChanged" 0 ⟨1⟩
      (some (Sapling.body [.ldarg 0, .ldfld flag, .ret])) (some ⟨7⟩)),
    some (Sapling.method 39 "set_IsChanged" 1 ⟨1⟩
      (some (Sapling.body [.ldarg 0, .ldarg 1, .stfld flag, .ret])))]
  registry := (Sapling.module Sapling.plain).registry

def type : TypePlan := { Sapling.type with dirtySetter := some ⟨9⟩, properties := [Sapling.plan] }

def pass : Except Error WeaveSummary × Weaver × Module :=
  ({} : Weaver).weave [type] module

def vars : Variables := [(Sapling.property, Sapling.child), (isChanged, flag)]

def changed (_ : Property) : Option Property := some isChanged

/-- A node becomes the child of another one. -/
def uses : List PropertyUse :=
  [.set ⟨1⟩ Sapling.property (.ref ⟨2⟩), .get ⟨1⟩ Sapling.property (.ref ⟨2⟩),
    .get ⟨1⟩ isChanged (.int 1), .get ⟨2⟩ isChanged (.int 0)]

theorem declared : vars.Declared module where
  auto := by
    intro x hx
    simp only [vars, List.mem_cons, List.not_mem_nil, or_false] at hx
    rcases hx with rfl | rfl
    · exact ⟨rfl, ⟨⟨0⟩, _, rfl, rfl, by decide +kernel, rfl, rfl, rfl, _, rfl, by decide +kernel⟩,
        ⟨1⟩, _, rfl, rfl, by decide +kernel, rfl, rfl, rfl, _, rfl, by decide +kernel⟩
    · exact ⟨rfl, ⟨⟨8⟩, _, rfl, rfl, by decide +kernel, rfl, rfl, rfl, _, rfl, by decide +kernel⟩,
        ⟨9⟩, _, rfl, rfl, by decide +kernel, rfl, rfl, rfl, _, rfl, by decide +kernel⟩
  own := by decide +kernel
  unmarked := by
    have hall : ∀ x ∈ vars, ∀ i ∈ x.1.setter, module.isWoven i = false := by decide +kernel
    exact hall
  fresh := by
    intro x hx
    simp only [vars, List.mem_cons, List.not_mem_nil, or_false] at hx
    rintro i d body hset hd hbody
    rcases hx with rfl | rfl <;> obtain rfl := Option.some.inj hset <;>
      obtain rfl := Option.some.inj hd <;> obtain rfl := Option.some.inj hbody <;>
      exact Sapling.fresh_body _ _
  values := by decide +kernel
  aside := by
    intro i d body hd hname hbody j hj
    have hall : ∀ o ∈ module.methods.toList, ∀ d ∈ o, d.name ∉ vars.setters → ∀ body ∈ d.body,
        ∀ j ∈ body.code, vars.Avoids module j.op := by
      decide +kernel
    exact hall _ (Module.mem_methods hd) d rfl hname body hbody j hj
  events := by
    intro t d f hd hf hname
    have hall : ∀ o ∈ module.types.toList, ∀ d ∈ o, ∀ f ∈ d.fields, f.name = Surface.changedEvent →
        ¬ vars.Held f.token := by
      decide +kernel
    exact hall _ (Module.mem_types hd) d rfl f hf hname
  accessors := by
    intro t d hd e he i hi
    have hall : ∀ o ∈ module.types.toList, ∀ d ∈ o, ∀ e ∈ d.events, e = Sapling.changed := by
      decide +kernel
    obtain rfl := hall _ (Module.mem_types hd) d rfl e he
    rcases hi with hi | hi <;> obtain rfl := Option.some.inj hi <;>
      exact ⟨_, rfl, ⟨rfl, rfl, rfl⟩, by decide +kernel⟩

theorem planned : ∀ v ∈ TypePlan.listed [Sprout.type], vars.Planned module changed v := by
  intro v hv
  obtain rfl : v = (Sprout.type, Sapling.plan) := by
    simpa [TypePlan.listed, Sprout.type] using hv
  exact ⟨⟨Sapling.child, by decide, rfl⟩, List.forall_mem_nil _, rfl, by decide +kernel, rfl,
    fun q hq => Option.some.inj hq ▸ ⟨rfl, flag, by decide⟩⟩

theorem serves : Resolver.standard.Serves module pass.2.2 (vars.Open pass.2.2) := by
  refine .of_steady (Module.uniqueTokens_of_nodup (by decide +kernel)) (Resolver.steady_standard _)
    (fun i h => ?_) fun i h => ?_
  · obtain rfl : ⟨5⟩ = i := Except.ok.inj ((by decide +kernel : _ = Except.ok _).symm.trans h)
    exact ⟨by decide +kernel, Sapling.comparer, by decide +kernel, rfl, by decide, rfl, rfl,
      RuntimeMember.objectEquals.hook, by decide +kernel, rfl⟩
  · obtain rfl : ⟨6⟩ = i := Except.ok.inj ((by decide +kernel : _ = Except.ok _).symm.trans h)
    exact ⟨by decide +kernel, ⟨15⟩, Sapling.method 36 Surface.constructor 2 ⟨5⟩, ⟨5⟩,
      ⟨⟨15⟩, "System.ComponentModel", "PropertyChangedEventHandler", .classType, true, some ⟨4⟩,
        [], [], [⟨6⟩], [], [], []⟩, by decide +kernel, rfl, rfl, by decide +kernel, by decide +kernel, rfl⟩

theorem objects {r : HeapRef} {o : HeapObject} (h : Sapling.machine.heap.get? r = some o) :
    o = .object ⟨11⟩ .empty := by
  have hall : ∀ o ∈ Sapling.machine.heap.objects.toList, o = .object ⟨11⟩ .empty := by decide
  unfold Heap.get? at h
  split at h
  · cases h
  · rw [← Array.getElem?_toList] at h
    exact hall o (List.mem_of_getElem? h)

theorem fresh : Sapling.machine.Fresh :=
  ⟨rfl, rfl, fun _ _ h => .inl ⟨⟨11⟩, objects h⟩⟩

end Sprout

end SetterLoom
