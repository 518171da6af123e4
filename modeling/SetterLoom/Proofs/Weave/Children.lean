import SetterLoom.Proofs.Weave.Handed
import SetterLoom.Proofs.Weave.Mirrored
import SetterLoom.Proofs.Weave.Reordered
import SetterLoom.Proofs.Weave.Variables

/-!
# Handlers mirror the object graph

Behind a pass, the followed properties whose setters only store their argument are mirrored by the handlers
of their values: an object has the handler of such a property of a parent once if the property of the parent
is the object, and not at all otherwise, whatever was assigned before.

* `Children.links`: the fields of those properties, each with its handler.
* `Children.bodies`: no method leads out of the states in which they are mirrored.
* `Weaver.children_mirrored`: any number of assignments behind a pass.
-/

namespace SetterLoom
set_option autoImplicit false

/-- The setter only stores its argument, into the field of the plan. -/
structure PropertyPlan.Auto (plan : PropertyPlan) (field : Field) (m : Module) : Prop where
  backing : plan.backing = some field
  setter : ∃ i d, plan.property.setter = some i ∧ m.method? i = some d
    ∧ d.name = Surface.setter plan.property.name ∧ d.Stores field

theorem pointed_of_stores {code : Stream} {field : Field}
    (hops : code.map (·.op) = [.ldarg 0, .ldarg 1, .stfld field, .ret]) : code.pointed = [] := by
  obtain ⟨i₀, i₁, i₂, i₃, rfl, h₀, h₁, h₂, h₃⟩ := Stream.eq_of_four hops
  simp [Stream.pointed, h₀, h₁, h₂, h₃, Op.pointed?, Op.ldarg, Op.stfld, Op.ret]

theorem delegateName_ne_accessor (p : String) (a : EventAccessor) : delegateName p ≠ a.name := by
  have hhead : (delegateName p).toList.head? = some '<' := by
    unfold delegateName
    rw [String.toList_append, String.toList_append]
    rfl
  intro heq
  rw [heq] at hhead
  cases a <;> revert hhead <;> decide +kernel

/-- The field is behind a changed event. -/
def Module.EventToken (m : Module) (f : Token) : Prop :=
  ∃ t d e, m.type? t = some d ∧ e ∈ d.fields ∧ e.name = Surface.changedEvent ∧ e.token = f

theorem Module.eventToken_of_line {m : Module} {t : TypeId} {e : Field}
    (h : m.fieldInLine? t Surface.changedEvent = some e) : m.EventToken e.token := by
  obtain ⟨x, hx, hfield⟩ := List.exists_of_findSome?_eq_some h
  refine ⟨x.1, x.2, e, Module.type?_of_mem_line hx, List.mem_of_find?_eq_some hfield, ?_, rfl⟩
  have hname := List.find?_some hfield
  simpa using hname

namespace Children

section Definitions

variable (options : Options) (visits : List (TypePlan × PropertyPlan)) (m : Module)

/-- A property whose setter only stores its argument into the field, and whose value is followed. -/
structure Child (v : TypePlan × PropertyPlan) (field : Field) : Prop where
  auto : v.2.Auto field m
  followed : ∃ event, m.followed? options v.1.type v.2.property = some event

/-- The setter of a property follows its value. -/
def Follows (v : TypePlan × PropertyPlan) : Prop :=
  ∃ i d body, v.2.property.setter = some i ∧ m.method? i = some d ∧ d.body = some body
    ∧ (Weaving.subscribed m options v.1 v.2 (v.2.anchors body.code).2).isSome = true

/-- The field is that of a followed property. -/
def Held (f : Token) : Prop := ∃ v ∈ visits, ∃ field, Child options m v field ∧ field.token = f

/-- The names of the setters that follow a value and do more than to store it. -/
def strays : Set String :=
  {name | ∃ v ∈ visits, Follows options m v ∧ (∀ field, ¬ v.2.Auto field m)
    ∧ ∃ i d, v.2.property.setter = some i ∧ m.method? i = some d ∧ d.name = name}

/-- The operation stores neither into the field of a followed property nor behind a changed event, and
refers neither to the accessors of such an event nor to setters that do more than to store. -/
structure Avoids (op : Op) : Prop where
  field : ∀ f, op.operand = .field f → op.code = .stfld ∨ op.code = .ldflda →
    ¬ Held options visits m f.token ∧ ¬ m.EventToken f.token
  method : ∀ u, op.operand = .method u → m.Ordinary (strays options visits m) u.method

/-- The followed properties are kept in fields of their own; no code but their setters stores into these or
behind changed events, and the machine answers for the accessors of the events. -/
structure Declared : Prop extends Weaving.Prepared m visits where
  own : ∀ u ∈ visits, ∀ v ∈ visits, ∀ f g, Child options m u f → Child options m v g →
    f.token = g.token → u = v
  unmarked : ∀ v ∈ visits, ∀ f, Child options m v f → ∀ i, v.2.property.setter = some i →
    m.isWoven i = false
  fresh : ∀ v ∈ visits, ∀ f, Child options m v f → ∀ i d body, v.2.property.setter = some i →
    m.method? i = some d → d.body = some body → ∀ k ∈ body.code, ∀ n, m.serial ≤ n → k.label ≠ .drawn n
  behind : ∀ v ∈ visits, ∀ f, Child options m v f → ¬ m.EventToken f.token
  aside : ∀ i d body, m.method? i = some d → d.body = some body →
    (∀ v ∈ visits, v.2.property.setter = some i → ¬ Follows options m v) →
      ∀ k ∈ body.code, Avoids options visits m k.op
  accessors : ∀ t d, m.type? t = some d → ∀ e ∈ d.events, m.isEventOf handlerTypeName e = true →
    ∀ (a : EventAccessor) i, a.method e = some i →
      ∃ d, m.method? i = some d ∧ d.Accesses ∧ d.name = a.name
  bodiless : ∀ i d (a : EventAccessor), m.method? i = some d → d.name = a.name → d.body = none
  calls : ∀ v ∈ visits, ∀ i, i ∈ v.1.invoker.methods ∨ v.1.dirtySetter = some i
      ∨ (∃ hook ∈ v.1.hooks, hook.method = i) ∨ (∃ p ∈ v.2.targets, p.getter = some i) →
    m.Ordinary (strays options visits m) i
  plain : ∀ name ∈ strays options visits m, name ≠ Surface.constructor ∧ ∀ p, name ≠ delegateName p

/-- The fields of the followed properties, each with its handler in the module behind the pass. -/
def links (m' : Module) : Set (Token × Token) :=
  {l | ∃ v ∈ visits, ∃ field h d, Child options m v field ∧ m'.delegate? v.2.property = some h
    ∧ m'.method? h = some d ∧ l = (field.token, d.token)}

end Definitions

/-! ## Followed properties -/

section Followed

variable {options : Options} {visits : List (TypePlan × PropertyPlan)} {m : Module}
  {v : TypePlan × PropertyPlan} {field : Field}

theorem Child.follows (h : Child options m v field) : Follows options m v := by
  obtain ⟨i, d, hset, hd, -, hstores⟩ := h.auto.setter
  obtain ⟨body, hbody, hops⟩ := hstores.code
  obtain ⟨event, hevent⟩ := h.followed
  refine ⟨i, d, body, hset, hd, hbody, ?_⟩
  rw [Variables.anchors_auto h.auto.backing hops]
  unfold Weaving.subscribed
  rw [h.auto.backing]
  dsimp only
  rw [hevent]
  rfl

theorem Follows.child (h : Follows options m v) (hauto : v.2.Auto field m) : Child options m v field := by
  obtain ⟨i, d, body, -, -, -, hsome⟩ := h
  refine ⟨hauto, ?_⟩
  unfold Weaving.subscribed at hsome
  split at hsome
  · rw [Option.isSome_map] at hsome
    exact Option.isSome_iff_exists.mp hsome
  · cases hsome

theorem Child.field_eq {g : Field} (h : Child options m v field) (h' : Child options m v g) : field = g :=
  Option.some.inj (h.auto.backing.symm.trans h'.auto.backing)

end Followed

section Pass

variable {options : Options} {resolver : Resolver} {visits : List (TypePlan × PropertyPlan)}
  {m₀ : Module} {w : Workpiece} {v : TypePlan × PropertyPlan} {field : Field}
  (hdeclared : Declared options visits m₀) (hserves : resolver.Serves m₀ w.module fun _ => True)
  (hhanded : Weaving.Handed options resolver visits m₀ w)
  (hwoven : ∀ v ∈ visits, ∀ i, v.2.property.setter = some i → w.module.isWoven i = true)

include hdeclared hhanded in
theorem ordinary_of_old {i : MethodId} (h : m₀.Ordinary (strays options visits m₀) i) :
    w.module.Ordinary (strays options visits m₀) i := by
  intro d hd
  cases hhanded.stage.kinds i d hd with
  | kept old => exact h d old
  | handler _ _ name _ =>
    rw [name]
    exact ⟨delegateName_ne_accessor _, fun hmem => (hdeclared.plain _ hmem).2 _ rfl⟩
  | @woven d _ _ _ _ _ _ _ _ _ old _ _ _ => exact (h d old :)

include hdeclared hhanded hwoven in
/-- The setter of a followed property was woven with a handler of its own, to which it points. -/
theorem exists_delegate (hv : v ∈ visits) (hchild : Child options m₀ v field) :
    ∃ i d h e, v.2.property.setter = some i ∧ m₀.method? i = some d ∧ h ∈ w.module.pointed i
      ∧ m₀.method? h = none ∧ w.module.delegate? v.2.property = some h ∧ w.module.method? h = some e
      ∧ e.name = delegateName v.2.property.name
      ∧ ∃ n body result event called before,
        ∃ l : Layout ⟨options, resolver, n, v.1, v.2⟩ (some (field, event, h)) called
            (v.2.anchors body.code).1 before,
          d.body = some body ∧ Weaving.Laced m₀ w.module body l result
            ∧ w.module.method? i = some { d with
                body := some result, attributes := d.attributes ++ [Surface.woven] } := by
  obtain ⟨i, d, hset, hd, -, hstores⟩ := hchild.auto.setter
  obtain ⟨i', d', body, hset', hd', hbody, hsome⟩ := hchild.follows
  obtain rfl := Option.some.inj (hset'.symm.trans hset)
  obtain rfl := Option.some.inj (hd'.symm.trans hd)
  obtain ⟨h, hpointed, hnew⟩ := hhanded.followed v hv i' d' body hset hd hbody
    (hdeclared.unmarked v hv field hchild i' hset) (hwoven v hv i' hset) hsome
  obtain ⟨e, he⟩ := hhanded.stage.old i' d' hd
  cases hhanded.stage.kinds i' e he with
  -- as it was, the code would point to methods that were there before only
  | kept old =>
    rw [Module.pointed_congr (m := m₀) (he.trans old.symm)] at hpointed
    obtain ⟨k, hk⟩ := hdeclared.known i' h hpointed
    rw [hnew] at hk
    cases hk
  | handler _ isNew => rw [isNew] at hd; cases hd
  | @woven d₁ u n code result subscription called before hu setter old body_eq l laced =>
    obtain rfl := Option.some.inj (old.symm.trans hd)
    obtain rfl := hdeclared.once u hu v hv i' setter hset
    obtain rfl := Option.some.inj (body_eq.symm.trans hbody)
    have hcode : w.module.pointed i' = (l.weave code.code).pointed := by
      rw [Module.pointed_eq he rfl, laced.code]
    obtain ⟨body, hbody', hops⟩ := hstores.code
    obtain rfl := Option.some.inj (hbody'.symm.trans hbody)
    have hplain := pointed_of_stores hops
    rw [hcode] at hpointed
    obtain ⟨f, event, rfl⟩ : ∃ f event, subscription = some (f, event, h) := by
      rcases Layout.mem_pointed hpointed with hold | hsome
      · rw [hplain] at hold
        cases hold
      · exact hsome
    obtain ⟨hbacking, -, ⟨e, -, he', hname, -⟩, -⟩ := laced.follows f event h rfl
    obtain rfl := Option.some.inj (hbacking.symm.trans hchild.auto.backing)
    refine ⟨i', d₁, h, e, hset, hd, hcode ▸ hpointed, hnew, ?_, he', hname, n, body, result, event, called,
      before, l, hbody, laced, he⟩
    unfold Module.delegate?
    rw [hset, Option.bind_some, hcode]
    exact Layout.head?_pointed laced.anchored hplain

include hdeclared hserves hhanded hwoven in
theorem links_own : ∀ l ∈ links options visits m₀ w.module, ∀ l' ∈ links options visits m₀ w.module,
    l.1 = l'.1 ∨ l.2 = l'.2 → l = l' := by
  rintro _ ⟨u, hu, f, h, d, hchild, hdelegate, hd, rfl⟩ _ ⟨v, hv, g, h', d', hchild', hdelegate', hd', rfl⟩ hsame
  have huv : u = v := by
    rcases hsame with hfield | htoken
    · exact hdeclared.own u hu v hv f g hchild hchild' hfield
    · obtain rfl := hserves.unique h h' d d' hd hd' htoken
      obtain ⟨i, -, k, -, hset, -, hpointed, hnew, hk, -⟩ := exists_delegate hdeclared hhanded hwoven hu hchild
      obtain ⟨j, -, k', -, hset', -, hpointed', -, hk', -⟩ :=
        exists_delegate hdeclared hhanded hwoven hv hchild'
      obtain rfl := Option.some.inj (hk.symm.trans hdelegate)
      obtain rfl := Option.some.inj (hk'.symm.trans hdelegate')
      obtain rfl := hhanded.own i j k' hnew hpointed hpointed'
      exact hdeclared.once u hu v hv i hset hset'
  subst huv
  obtain rfl := hchild.field_eq hchild'
  obtain rfl := Option.some.inj (hdelegate.symm.trans hdelegate')
  obtain rfl := Option.some.inj (hd.symm.trans hd')
  rfl

include hhanded in
/-- A pass declares no fields. -/
theorem eventToken_of_line {t : TypeId} {e : Field}
    (h : w.module.fieldInLine? t Surface.changedEvent = some e) : m₀.EventToken e.token := by
  obtain ⟨u, d, g, hd, hg, hname, htoken⟩ := Module.eventToken_of_line h
  obtain ⟨d₀, hd₀, hshape⟩ := hhanded.stage.grown.type? hd
  have hfields : d.shape.fields = d₀.shape.fields := by rw [hshape]
  have hmem : g ∈ d.shape.fields := hg
  rw [hfields] at hmem
  exact ⟨u, d₀, g, hd₀, hmem, hname, htoken⟩

include hhanded in
theorem bodiless_behind
    (hbodiless : ∀ i d (a : EventAccessor), m₀.method? i = some d → d.name = a.name → d.body = none) :
    ∀ i d (a : EventAccessor), w.module.method? i = some d → d.name = a.name → d.body = none := by
  intro i d a hd hname
  cases hhanded.stage.kinds i d hd with
  | kept old => exact hbodiless i d a old hname
  | handler _ _ name _ => exact absurd (name.symm.trans hname) (delegateName_ne_accessor _ a)
  | @woven d₁ _ _ _ _ _ _ _ _ _ old body_eq _ _ =>
    rw [hbodiless i d₁ a old hname] at body_eq
    cases body_eq

include hdeclared hserves hhanded hwoven in
theorem links_apart : w.module.Links (links options visits m₀ w.module) where
  own := links_own hdeclared hserves hhanded hwoven
  apart := by
    rintro _ ⟨v, hv, field, h, d, hchild, -, -, rfl⟩ t e he htoken
    have hsame : e.token = field.token := htoken
    exact hdeclared.behind v hv field hchild (hsame ▸ eventToken_of_line hhanded he)
  bodiless := bodiless_behind hhanded hdeclared.bodiless

/-- What is followed in the module behind a pass. -/
def wiring (hdeclared : Declared options visits m₀) (m : Module) : Wiring where
  links := links options visits m₀ m
  avoided := strays options visits m₀
  constructor_notMem := fun hmem => (hdeclared.plain _ hmem).1 rfl

/-- The code behind a pass is held to keep the followed properties mirrored. -/
abbrev restraint (hdeclared : Declared options visits m₀) (m : Module) : Restraint m :=
  Restraint.mirroring m (wiring hdeclared m)

include hhanded in
theorem not_held {f : Token} (hheld : ¬ Held options visits m₀ f) (hevent : ¬ m₀.EventToken f) :
    ¬ (restraint hdeclared w.module).held f := by
  rintro (⟨t, e, he, rfl⟩ | ⟨_, ⟨v, hv, field, h, d, hchild, -, -, rfl⟩, rfl⟩)
  · exact hevent (eventToken_of_line hhanded he)
  · exact hheld ⟨v, hv, field, hchild, rfl⟩

include hserves in
theorem pointable_of_ordinary {i : MethodId} {d : Method} (hd : w.module.method? i = some d)
    (hordinary : w.module.Ordinary (strays options visits m₀) i) :
    (restraint hdeclared w.module).worlds.pointable d.token := by
  intro j e he htoken
  obtain rfl := hserves.unique j i e d he hd htoken
  exact hordinary

include hserves hhanded in
theorem allowed_of_avoids {op : Op} (h : Avoids options visits m₀ op) :
    (restraint hdeclared w.module).likeness.Allowed op where
  field f hf hcode :=
    not_held hdeclared hhanded (h.field f hf hcode).1 (h.field f hf hcode).2
  method u hu := ordinary_of_old hdeclared hhanded (h.method u hu)
  pointer u _ hu _ hd :=
    pointable_of_ordinary hdeclared hserves hd (ordinary_of_old hdeclared hhanded (h.method u hu))

include hhanded in
theorem announces (hv : v ∈ visits) (n : Module) :
    (restraint hdeclared w.module).Announces ⟨options, resolver, n, v.1, v.2⟩ where
  hooks called target hook hhook := by
    refine ordinary_of_old hdeclared hhanded (hdeclared.calls v hv _ (.inr (.inr (.inl ⟨hook, ?_, rfl⟩))))
    unfold BlockContext.hookFor? TypePlan.hook? at hhook
    dsimp only at hhook
    split at hhook
    · exact List.mem_of_find?_eq_some hhook
    · cases hhook
  invoker i hi := ordinary_of_old hdeclared hhanded (hdeclared.calls v hv i (.inl hi))
  getters p hp i hi :=
    ordinary_of_old hdeclared hhanded (hdeclared.calls v hv i (.inr (.inr (.inr ⟨p, hp, hi⟩))))

include hhanded in
theorem dirty_ordinary (hv : v ∈ visits) (n : Module) {i : MethodId}
    (h : (⟨options, resolver, n, v.1, v.2⟩ : BlockContext).dirtySetter? = some i) :
    (restraint hdeclared w.module).callable i := by
  unfold BlockContext.dirtySetter? at h
  dsimp only at h
  split at h
  · exact ordinary_of_old hdeclared hhanded (hdeclared.calls v hv i (.inr (.inl h)))
  · cases h

include hhanded in
theorem accessor_of_public
    (haccessors : ∀ t d, m₀.type? t = some d → ∀ e ∈ d.events, m₀.isEventOf handlerTypeName e = true →
      ∀ (a : EventAccessor) i, a.method e = some i → ∃ d, m₀.method? i = some d ∧ d.Accesses ∧ d.name = a.name)
    (hbodiless : ∀ i d (a : EventAccessor), m₀.method? i = some d → d.name = a.name → d.body = none)
    {n : Module} (hn : m₀.Shaped n) {type : TypeId} {event : Event}
    (hpublic : n.publicEvent? type handlerTypeName = some event) {a : EventAccessor} {i : MethodId}
    (hi : a.method event = some i) : ∃ d, w.module.method? i = some d ∧ d.Accesses ∧ d.name = a.name := by
  unfold Module.publicEvent? at hpublic
  obtain ⟨e, he, hfound⟩ := List.exists_of_findSome?_eq_some hpublic
  obtain ⟨t, ht, hshape⟩ := hn.exists_of_mem_line he
  have hevents : e.2.events = t.events := by
    have hsame : t.shape.events = e.2.shape.events := by rw [hshape]
    exact hsame.symm
  have hevent : event ∈ t.events := hevents ▸ List.mem_of_find?_eq_some hfound
  have htype : m₀.isEventOf handlerTypeName event = true := by
    have hboth := List.find?_some hfound
    rw [Bool.and_eq_true] at hboth
    rw [← hboth.1]
    unfold Module.isEventOf
    have hname : ∀ x : Option TypeDef, x.any (·.name == handlerTypeName)
        = (x.map TypeDef.shape).any (·.name == handlerTypeName) := by
      intro x
      cases x <;> rfl
    rw [hname, ← hn.types, ← hname]
  obtain ⟨e', he', haccesses, hname⟩ := haccessors _ t (Module.type?_of_mem_line ht) event hevent htype a i hi
  obtain ⟨e'', he''⟩ := hhanded.stage.old i e' he'
  refine ⟨e', ?_, haccesses, hname⟩
  -- accessors have no body, so they are not woven
  cases hhanded.stage.kinds i e'' he'' with
  | kept old => rw [he'', ← he', old]
  | handler _ isNew => rw [isNew] at he'; cases he'
  | woven _ _ old body_eq _ _ =>
    obtain rfl := Option.some.inj (old.symm.trans he')
    rw [hbodiless i _ a he' hname] at body_eq
    cases body_eq

include hserves hhanded in
theorem reaches {n : Module} {body result : Body} {event : Event} {h : MethodId} {called : List String}
    {before : String → Bool → UInt16}
    {l : Layout ⟨options, resolver, n, v.1, v.2⟩ (some (field, event, h)) called
      (v.2.anchors body.code).1 before} (laced : Weaving.Laced m₀ w.module body l result) {d : Method}
    (hd : w.module.method? h = some d) :
    (⟨options, resolver, n, v.1, v.2⟩ : BlockContext).Reaches (restraint hdeclared w.module) field event h
      d.token where
  equals i hi := (hserves.equals _ i laced.grown laced.onward hi).2
  makes i hi := (hserves.makes _ i laced.grown laced.onward hi).2
  handler := by
    obtain ⟨-, hnew, -⟩ := laced.follows field event h rfl
    have hordinary : w.module.Ordinary (strays options visits m₀) h :=
      ordinary_of_old hdeclared hhanded fun e he => by
        rw [hnew] at he
        cases he
    exact ⟨d, hd, rfl, pointable_of_ordinary hdeclared hserves hd hordinary⟩
  accessor a i hi := by
    obtain ⟨-, -, -, n', hn', hpublic⟩ := laced.follows field event h rfl
    exact accessor_of_public hhanded hdeclared.accessors hdeclared.bodiless hn' hpublic hi

include hdeclared hserves hhanded hwoven in
/-- A method that does not follow a value, or only stores its argument, does not lead out of the states with
mirrored properties. -/
theorem bodies {i : MethodId} {bound : Nat}
    (hcalls : (Restraint.mirrored w.module (wiring hdeclared w.module)).Calls
      (Action.invokeAt w.module bound) (Action.invokeAt w.module bound))
    (hauto : ∀ v ∈ visits, v.2.property.setter = some i → Follows options m₀ v → ∃ f, v.2.Auto f m₀) :
    (Restraint.mirrored w.module (wiring hdeclared w.module)).Bodies
      (Action.invokeAt w.module bound) (Action.invokeAt w.module bound) i := by
  by_cases hchild : ∃ v ∈ visits, v.2.property.setter = some i ∧ ∃ f, Child options m₀ v f
  · obtain ⟨v, hv, hset, field, hchild⟩ := hchild
    obtain ⟨i', d, h, e, hset', hd, -, -, hdelegate, he, -, n, body, result, event, called, before, l, hbody,
      laced, hd'⟩ := exists_delegate hdeclared hhanded hwoven hv hchild
    obtain rfl := Option.some.inj (hset'.symm.trans hset)
    obtain ⟨j, d', hj, hdj, -, hstores⟩ := hchild.auto.setter
    obtain rfl := Option.some.inj (hj.symm.trans hset)
    obtain rfl := Option.some.inj (hdj.symm.trans hd)
    obtain ⟨body', hbody', hops⟩ := hstores.code
    obtain rfl := Option.some.inj (hbody'.symm.trans hbody)
    obtain ⟨count, hlabels⟩ := laced.labels
    exact Layout.bodies_mirrored (links_apart hdeclared hserves hhanded hwoven)
      ⟨v, hv, field, h, e, hchild, hdelegate, he, rfl⟩ hcalls
      (reaches hdeclared hserves hhanded laced he) (announces hdeclared hhanded hv n)
      (fun k hk => dirty_ordinary hdeclared hhanded hv n hk) hops
      (congrArg Prod.fst (Variables.anchors_auto hchild.auto.backing hops)) hlabels
      (fun k hk num hnum => hdeclared.fresh v hv field hchild j d' body' hset hd hbody k hk num
        (Nat.le_trans laced.grown.serial hnum)) hd' rfl laced.code hstores.isInstance
  -- the code of all other methods is restrained
  refine Likeness.bodies_of_allowed hcalls fun d body hd hbody => ?_
  have hallowed : ∀ {op}, Avoids options visits m₀ op →
      (Restraint.mirrored w.module (wiring hdeclared w.module)).Allowed op := fun h =>
    have hop := allowed_of_avoids hdeclared hserves hhanded h
    ⟨hop.field, hop.method, hop.pointer⟩
  have haside : ∀ v ∈ visits, v.2.property.setter = some i → ¬ Follows options m₀ v := by
    intro v hv hset hfollows
    obtain ⟨f, hstores⟩ := hauto v hv hset hfollows
    exact hchild ⟨v, hv, hset, f, hfollows.child hstores⟩
  cases hhanded.stage.kinds i d hd with
  | kept old => exact fun k hk => hallowed (hdeclared.aside i d body old hbody haside k hk)
  | @handler _ v n hv _ _ handles =>
    intro k hk
    rcases handles.inHandler hbody k hk with hop | hop | ⟨target, htarget, before, after, hop⟩
    · rw [hop]
      exact ⟨fun _ h => (by cases h), fun _ h => (by cases h), fun _ _ h => (by cases h)⟩
    · rw [hop]
      exact ⟨fun _ h => (by cases h), fun _ h => (by cases h), fun _ _ h => (by cases h)⟩
    · have hop := (announces hdeclared hhanded hv n).allowed_announceOps htarget before after _ hop
      exact ⟨hop.field, hop.method, hop.pointer⟩
  | @woven d₀ v n body₀ result subscription called before hv setter old body_eq l laced =>
    obtain rfl := Option.some.inj hbody
    -- a setter that is woven with a subscription follows its value
    obtain rfl : subscription = none := by
      cases subscription with
      | none => rfl
      | some followed =>
        obtain ⟨f, event, h⟩ := followed
        obtain ⟨-, hnew, -⟩ := laced.follows f event h rfl
        have hpointed : h ∈ w.module.pointed i := by
          rw [Module.pointed_eq hd rfl, laced.code]
          exact Layout.pointed_of_subscribed laced.anchored
        exact absurd ⟨i, d₀, body₀, setter, old, body_eq,
          hhanded.handed v hv i d₀ body₀ setter old body_eq ⟨h, hpointed, hnew⟩⟩ (haside v hv setter)
    intro k hk
    rw [laced.code] at hk
    rcases l.mem_weave hk with hk | hk
    · exact hallowed (hdeclared.aside i d₀ body₀ old body_eq haside k hk)
    · have hop := Layout.allowed_injected (announces hdeclared hhanded hv n)
        (fun i hi => dirty_ordinary hdeclared hhanded hv n hi) k hk
      exact ⟨hop.field, hop.method, hop.pointer⟩

/-- The states in which the followed properties are mirrored. -/
structure Good (hdeclared : Declared options visits m₀) (m : Module) (s : Machine) : Prop where
  tame : (restraint hdeclared m).Tame s
  heap : s.heap.Mirrored m (links options visits m₀ m)

include hserves hhanded hwoven in
theorem calls (bound : Nat) :
    (Restraint.mirrored w.module (wiring hdeclared w.module)).Calls
      (Action.invokeAt w.module bound) (Action.invokeAt w.module bound) := by
  refine Likeness.calls_of_bodies (fun bound i hcalls hi => ?_) bound
  refine bodies hdeclared hserves hhanded hwoven hcalls fun v hv hset hfollows => ?_
  -- a setter that does more than to store is not called
  by_contra hstray
  obtain ⟨i', d, body, hset', hd, -⟩ := id hfollows
  obtain rfl := Option.some.inj (hset'.symm.trans hset)
  have hname : d.name ∈ strays options visits m₀ :=
    ⟨v, hv, hfollows, fun field hauto => hstray ⟨field, hauto⟩, i', d, hset, hd, rfl⟩
  obtain ⟨d', hd'⟩ := hhanded.stage.old i' d hd
  have hordinary : w.module.Ordinary (strays options visits m₀) i' := hi
  refine (hordinary d' hd').2 ?_
  cases hhanded.stage.kinds i' d' hd' with
  | kept old =>
    obtain rfl := Option.some.inj (old.symm.trans hd)
    exact hname
  | handler _ isNew => rw [isNew] at hd; cases hd
  | woven _ _ old _ _ _ =>
    obtain rfl := Option.some.inj (old.symm.trans hd)
    exact hname

include hserves hhanded hwoven in
theorem good_assigned (hv : v ∈ visits) (hauto : v.2.Auto field m₀) {s t : Machine} {r : HeapRef} {x : Value}
    (hgood : Good hdeclared w.module s) (hx : (∀ k, x ≠ .function k) ∧ ∀ q f, x ≠ .address q f)
    (hrun : (Action.setProperty w.module r v.2.property x).run.run s = (.ok (), t)) :
    Good hdeclared w.module t := by
  obtain ⟨i, d₀, hset, hd₀, hname, hstores⟩ := hauto.setter
  obtain ⟨y, bound, hrun⟩ := Action.invokeAt_of_setProperty hset hrun
  obtain ⟨d, hd⟩ := hhanded.stage.old i d₀ hd₀
  have hsame : d.name = d₀.name := by
    cases hhanded.stage.kinds i d hd with
    | kept old => rw [Option.some.inj (old.symm.trans hd₀)]
    | handler _ isNew => rw [isNew] at hd₀; cases hd₀
    | woven _ _ old _ _ _ => rw [← Option.some.inj (old.symm.trans hd₀)]
  have hhook : s.hooks.find? (⟨w.module, d⟩ : Site).callName = none := by
    rw [hgood.tame.hooks]
    exact Variables.hook_of_accessor v.2.property.name (.inl (hsame.trans hname))
  rw [Action.invokeAt, Action.invokeWith_body hd hhook] at hrun
  have hbodies := bodies hdeclared hserves hhanded hwoven (i := i)
    (calls hdeclared hserves hhanded hwoven bound) fun u hu hset' _ => by
      obtain rfl := hdeclared.once u hu v hv i hset' hset
      exact ⟨field, hauto⟩
  have hargs : List.Forall₂ ((Restraint.mirrored w.module (wiring hdeclared w.module)).Values
      fun _ _ => none) [x] [x] := by
    refine .cons ?_ .nil
    exact (restraint hdeclared w.module).values_world _ (Restraint.trusts_of_data hx)
  have hentered : (restraint hdeclared w.module).Tame (s.entered ⟨w.module, d⟩ i) :=
    (hgood.tame.learn hd).update rfl rfl rfl
  obtain ⟨_, _, t', -, ⟨rfl, htame, hheap⟩, -, -⟩ :=
    hbodies hd hd (.some (.ref rfl)) hargs ⟨rfl, hentered, hgood.heap⟩ hrun.2
  exact ⟨htame, hheap⟩

include hserves hhanded hwoven in
theorem good_of_uses {s t : Machine} {calls : List PropertyUse}
    (hcalls : PropertyUses w.module s calls t)
    (hassigns : ∀ a ∈ calls, ∃ v ∈ visits, ∃ f r x, v.2.Auto f m₀ ∧ a = .set r v.2.property x
      ∧ (∀ k, x ≠ .function k) ∧ ∀ q g, x ≠ .address q g)
    (hgood : Good hdeclared w.module s) : Good hdeclared w.module t := by
  induction hcalls with
  | done => exact hgood
  | get =>
    obtain ⟨_, _, _, _, _, _, heq, -⟩ := hassigns _ List.mem_cons_self
    cases heq
  | set hsucceeds _ ih =>
    obtain ⟨v, hv, f, r, x, hauto, heq, hx⟩ := hassigns _ List.mem_cons_self
    cases heq
    exact ih (fun a ha => hassigns a (List.mem_cons_of_mem _ ha))
      (good_assigned hdeclared hserves hhanded hwoven hv hauto hgood hx hsucceeds)

end Pass

end Children

/-! ## Nodes that are shared -/

namespace Twins

/-- A machine with three nodes. -/
def nodes : Machine :=
  { Machine.withRuntimeMembers with
    heap := { objects := #[.object ⟨11⟩ .empty, .object ⟨11⟩ .empty, .object ⟨11⟩ .empty] } }

/-- The third node becomes the child and the twin of the first one, and twice the child of the second one;
then the first one loses its child. -/
def shared : List PropertyUse :=
  [.set ⟨1⟩ Sapling.property (.ref ⟨3⟩), .set ⟨1⟩ property (.ref ⟨3⟩), .set ⟨2⟩ Sapling.property (.ref ⟨3⟩),
    .set ⟨2⟩ Sapling.property (.ref ⟨3⟩), .set ⟨1⟩ Sapling.property .null]

theorem listed {v : TypePlan × PropertyPlan} (hv : v ∈ TypePlan.listed forth) :
    v = ({ Sapling.type with properties := [Sapling.plan, plan] }, Sapling.plan)
      ∨ v = ({ Sapling.type with properties := [Sapling.plan, plan] }, plan) := by
  simpa [TypePlan.listed, forth, root] using hv

open Children in
theorem child {v : TypePlan × PropertyPlan} (hv : v ∈ TypePlan.listed forth) :
    ∃ f, Child {} module v f := by
  rcases listed hv with rfl | rfl
  · exact ⟨Sapling.child, ⟨rfl, ⟨1⟩, _, rfl, rfl, by decide +kernel, rfl, rfl, rfl, _, rfl, by decide +kernel⟩,
      Sapling.changed, by decide +kernel⟩
  · exact ⟨twin, ⟨rfl, ⟨9⟩, _, rfl, rfl, by decide +kernel, rfl, rfl, rfl, _, rfl, by decide +kernel⟩,
      Sapling.changed, by decide +kernel⟩

open Children in
theorem no_strays (name : String) : name ∉ strays {} (TypePlan.listed forth) module := by
  rintro ⟨v, hv, -, hstray, -⟩
  obtain ⟨f, hf⟩ := child hv
  exact hstray f hf.auto

open Children in
theorem backing {v : TypePlan × PropertyPlan} (hv : v ∈ TypePlan.listed forth) {f : Field}
    (h : Child {} module v f) : v.2 = Sapling.plan ∧ f = Sapling.child ∨ v.2 = plan ∧ f = twin := by
  have hbacking := h.auto.backing
  rcases listed hv with rfl | rfl
  · exact .inl ⟨rfl, (Option.some.inj hbacking).symm⟩
  · exact .inr ⟨rfl, (Option.some.inj hbacking).symm⟩

theorem index_lt {i : MethodId} {d : Method} (hd : module.method? i = some d) : i.index < 10 := by
  by_contra hge
  have hsize : module.methods.size = 10 := by decide +kernel
  rw [Module.method?_of_size_le (by omega)] at hd
  cases hd

theorem eventToken {f : Token} (h : module.EventToken f) : f = ⟨2⟩ := by
  obtain ⟨t, d, e, hd, he, hname, rfl⟩ := h
  have hall : ∀ o ∈ module.types.toList, ∀ d ∈ o, ∀ e ∈ d.fields, e.name = Surface.changedEvent →
      e.token = ⟨2⟩ := by
    decide +kernel
  exact hall _ (Module.mem_types hd) d rfl e he hname

open Children in
theorem ordinary {i : MethodId} (h : ∀ d ∈ module.method? i,
      d.name ≠ EventAccessor.add.name ∧ d.name ≠ EventAccessor.remove.name) :
    module.Ordinary (strays {} (TypePlan.listed forth) module) i := by
  intro d hd
  refine ⟨fun a => ?_, no_strays _⟩
  cases a
  · exact (h d hd).1
  · exact (h d hd).2

open Children in
theorem declared : Children.Declared {} (TypePlan.listed forth) module where
  coherent := coherent
  bodies v hv i hset := by
    have hall : ∀ v ∈ TypePlan.listed forth, ∀ i ∈ v.2.property.setter,
        ((module.method? i).bind (·.body)).isSome = true := by
      decide +kernel
    obtain ⟨body, hbody⟩ := Option.isSome_iff_exists.mp (hall v hv i hset)
    obtain ⟨d, hd, hbody⟩ := Option.bind_eq_some_iff.mp hbody
    exact ⟨d, body, hd, hbody⟩
  once u hu v hv i hset hset' := by
    have hall : ∀ u ∈ TypePlan.listed forth, ∀ v ∈ TypePlan.listed forth,
        u.2.property.setter = v.2.property.setter → u = v := by
      decide +kernel
    exact hall u hu v hv (hset.trans hset'.symm)
  known j h hh := by
    have hnone : ∀ i : Fin 10, module.pointed ⟨i⟩ = [] := by decide +kernel
    cases hd : module.method? j with
    | none =>
      unfold Module.pointed at hh
      rw [hd] at hh
      cases hh
    | some d =>
      rw [hnone ⟨j.index, index_lt hd⟩] at hh
      cases hh
  events := contains.events
  own u hu v hv f g hf hg htoken := by
    have hall : ∀ u ∈ TypePlan.listed forth, ∀ v ∈ TypePlan.listed forth, u.2 = v.2 → u = v := by
      decide +kernel
    rcases backing hu hf with ⟨hu', rfl⟩ | ⟨hu', rfl⟩ <;> rcases backing hv hg with ⟨hv', rfl⟩ | ⟨hv', rfl⟩
    · exact hall u hu v hv (hu'.trans hv'.symm)
    · cases htoken
    · cases htoken
    · exact hall u hu v hv (hu'.trans hv'.symm)
  unmarked v hv f _ i hset := by
    have hall : ∀ v ∈ TypePlan.listed forth, ∀ i ∈ v.2.property.setter, module.isWoven i = false := by
      decide +kernel
    exact hall v hv i hset
  fresh v hv f _ i d body hset hd hbody := by
    rcases listed hv with rfl | rfl <;> obtain rfl := Option.some.inj hset <;>
      obtain rfl := Option.some.inj hd <;> obtain rfl := Option.some.inj hbody <;>
      exact Sapling.fresh_body _ _
  behind v hv f hf hevent := by
    have htoken := eventToken hevent
    rcases backing hv hf with ⟨-, rfl⟩ | ⟨-, rfl⟩ <;> cases htoken
  aside i d body hd hbody hunfollowed k hk := by
    have hall : ∀ i : Fin 10, (∀ v ∈ TypePlan.listed forth, v.2.property.setter ≠ some ⟨i⟩) →
        ∀ d ∈ module.method? ⟨i⟩, ∀ body ∈ d.body, ∀ k ∈ body.code,
          (∀ f ∈ k.op.field?, k.op.code = .stfld ∨ k.op.code = .ldflda →
            f.token ≠ ⟨1⟩ ∧ f.token ≠ ⟨2⟩ ∧ f.token ≠ ⟨4⟩) ∧ k.op.method? = none := by
      decide +kernel
    have hother : ∀ v ∈ TypePlan.listed forth, v.2.property.setter ≠ some ⟨i.index⟩ := by
      intro v hv hset
      obtain ⟨f, hf⟩ := child hv
      exact hunfollowed v hv hset hf.follows
    obtain ⟨hfields, hmethod⟩ := hall ⟨i.index, index_lt hd⟩ hother d hd body hbody k hk
    constructor
    · intro f hf hcode
      have hfield : f ∈ k.op.field? := by simp [Op.field?, hf]
      obtain ⟨h₁, h₂, h₄⟩ := hfields f hfield hcode
      refine ⟨?_, fun hevent => h₂ (eventToken hevent)⟩
      rintro ⟨v, hv, g, hg, htoken⟩
      rcases backing hv hg with ⟨-, rfl⟩ | ⟨-, rfl⟩
      · exact h₁ htoken.symm
      · exact h₄ htoken.symm
    · intro u hu
      simp [Op.method?, hu] at hmethod
  accessors t d hd e he htype a i hi := by
    have hall : ∀ o ∈ module.types.toList, ∀ d ∈ o, ∀ e ∈ d.events, e = Sapling.changed := by
      decide +kernel
    obtain rfl := hall _ (Module.mem_types hd) d rfl e he
    cases a <;> obtain rfl := Option.some.inj hi <;> exact ⟨_, rfl, ⟨rfl, rfl, rfl⟩, rfl⟩
  bodiless i d a hd hname := by
    have hall : ∀ o ∈ module.methods.toList, ∀ d ∈ o,
        d.name = EventAccessor.add.name ∨ d.name = EventAccessor.remove.name → d.body = none := by
      decide +kernel
    refine hall _ (Module.mem_methods hd) d rfl ?_
    cases a
    · exact .inl hname
    · exact .inr hname
  calls v hv i hi := by
    have hall : ∀ i ∈ [(⟨4⟩ : MethodId), ⟨0⟩, ⟨8⟩], ∀ d ∈ module.method? i,
        d.name ≠ EventAccessor.add.name ∧ d.name ≠ EventAccessor.remove.name := by
      decide +kernel
    refine ordinary (hall i ?_)
    rcases listed hv with rfl | rfl <;> rcases hi with hi | hi | ⟨hook, hi, -⟩ | ⟨p, hp, hi⟩
    · simpa [Invoker.methods, Sapling.type] using Or.inl (List.mem_singleton.mp hi)
    · cases hi
    · cases hi
    · obtain rfl := List.mem_singleton.mp hp
      obtain rfl := Option.some.inj hi
      decide
    · simpa [Invoker.methods, Sapling.type] using Or.inl (List.mem_singleton.mp hi)
    · cases hi
    · cases hi
    · obtain rfl := List.mem_singleton.mp hp
      obtain rfl := Option.some.inj hi
      decide
  plain name hname := absurd hname (no_strays name)

theorem serves : Resolver.standard.Serves module (pass forth).2.2 fun _ => True := by
  refine .of_steady (Module.uniqueTokens_of_nodup (by decide +kernel)) (Resolver.steady_standard _)
    (fun i h => ?_) fun i h => ?_
  · obtain rfl : ⟨5⟩ = i := Except.ok.inj ((by decide +kernel : _ = Except.ok _).symm.trans h)
    exact ⟨trivial, Sapling.comparer, by decide +kernel, rfl, by decide, rfl, rfl,
      RuntimeMember.objectEquals.hook, by decide +kernel, rfl⟩
  · obtain rfl : ⟨6⟩ = i := Except.ok.inj ((by decide +kernel : _ = Except.ok _).symm.trans h)
    exact ⟨trivial, ⟨15⟩, Sapling.method 36 Surface.constructor 2 ⟨5⟩, ⟨5⟩,
      ⟨⟨15⟩, "System.ComponentModel", "PropertyChangedEventHandler", .classType, true, some ⟨4⟩,
        [], [], [⟨6⟩], [], [], []⟩, by decide +kernel, rfl, rfl, by decide +kernel, by decide +kernel, rfl⟩

theorem fresh : nodes.Fresh := by
  refine ⟨rfl, rfl, fun r o h => .inl ⟨⟨11⟩, ?_⟩⟩
  have hall : ∀ o ∈ nodes.heap.objects.toList, o = .object ⟨11⟩ .empty := by decide
  unfold Heap.get? at h
  split at h
  · cases h
  · rw [← Array.getElem?_toList] at h
    exact hall o (List.mem_of_getElem? h)

end Twins

end SetterLoom
