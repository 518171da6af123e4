import SetterLoom.Module.Declare
import SetterLoom.Proofs.Module.Lines
import SetterLoom.Proofs.Module.Registered
import SetterLoom.Proofs.Weave.Steps

/-!
# Declared types

A declaration looks its base type up, registers the type, and then adds the members one after the other.
Members go to the type alone: the registry and all other types stay as they are. Only a changed event can
fail, and the type is registered by then. It keeps the members in front of the event, and since the first
type of a name is found, it hides a type that is declared under the name later.

* `Declare.MemberRule`: what holds of a member if it holds of its steps.
* `memberOn_cases`, `declare_cases`: everything a member and a declaration can do.
* `declare_eq_error_iff`: when a declaration fails, and what it leaves.
* `failed_declaration`: what is found after a failure, and after the type was declared once more.
-/

namespace SetterLoom
set_option autoImplicit false

/-! ## Registries that grow -/

namespace Registry

variable {r r' r'' : Registry} {k : Token} {n : String} {t : TypeId}

/-- No name was recorded with the token. -/
def Unrecorded (r : Registry) (k : Token) : Prop := ∀ e ∈ r.names, e.2 ≠ k

instance (r : Registry) (k : Token) : Decidable (r.Unrecorded k) :=
  inferInstanceAs (Decidable (∀ e ∈ r.names, e.2 ≠ k))

/-- What was recorded is recorded still, and its tokens stand for the same types. -/
structure Keeps (r r' : Registry) : Prop where
  names : r.names <+: r'.names
  types : ∀ e ∈ r.names, r'.get? e.2 = r.get? e.2

theorem keeps_insert (hk : r.Unrecorded k) (n : String) (t : TypeId) : r.Keeps (r.insert k n t) := by
  refine ⟨List.prefix_append _ _, fun e he => ?_⟩
  rw [get?_insert, if_neg (hk e he)]

/-- What was recorded is found as before, whatever else the registry has. -/
theorem Keeps.findSome?_names (h : r.Keeps r') (n : String) :
    (r.names.findSome? fun e => if e.1 = n then r'.types.get? e.2 else none) = r.find? n := by
  have hsame : ∀ names ⊆ r.names,
      (names.findSome? fun e => if e.1 = n then r'.types.get? e.2 else none)
        = names.findSome? fun e => if e.1 = n then r.types.get? e.2 else none := by
    intro names hnames
    induction names with
    | nil => rfl
    | cons e rest ih =>
      obtain ⟨he, hrest⟩ := List.cons_subset.mp hnames
      have hget : r'.types.get? e.2 = r.types.get? e.2 := h.types e he
      rw [List.findSome?_cons, List.findSome?_cons, hget, ih hrest]
  exact hsame r.names (List.Subset.refl _)

/-- The recorded names decide the search before any later one does. -/
theorem find?_of_keeps (h : r.Keeps r') (hfind : r.find? n = some t) : r'.find? n = some t := by
  obtain ⟨later, hlater⟩ := h.names
  rw [find?, ← hlater, List.findSome?_append, h.findSome?_names, hfind]
  rfl

/-- A type that is registered under a new token is found by its name if no other one is. -/
theorem find?_insert (hk : r.Unrecorded k) (n n' : String) (t : TypeId) :
    (r.insert k n t).find? n' = (r.find? n').or (if n = n' then some t else none) := by
  have hnew : (r.insert k n t).types.get? k = some t := TokenMap.get?_insert_self _ _ _
  have happend : (r.insert k n t).names = r.names ++ [(n, k)] := rfl
  rw [find?, happend, List.findSome?_append, (keeps_insert hk n t).findSome?_names]
  simp [hnew]

end Registry

/-! ## Members -/

/-- The member is the changed event. -/
def MemberSpec.isEvent : MemberSpec → Bool
  | .changedEvent => true
  | _ => false

/-- A changed event is among the members, and there is no type for its handlers. -/
def Module.LacksHandler (m : Module) (members : List MemberSpec) : Prop :=
  members.any (·.isEvent) ∧ m.find? Surface.eventHandler = none

theorem Module.lacksHandler_cons (m : Module) (x : MemberSpec) (rest : List MemberSpec) :
    m.LacksHandler (x :: rest) ↔ m.LacksHandler [x] ∨ m.LacksHandler rest := by
  simp [LacksHandler, or_and_right]

/-- The type without its members. -/
def TypeDef.bare (d : TypeDef) : TypeDef :=
  { d with fields := [], methods := [], properties := [], events := [] }

/-- Only the members of a type have changed. -/
structure Furnished (t : TypeId) (m m' : Module) : Prop where
  registry : m'.registry = m.registry
  size : m'.types.size = m.types.size
  others : ∀ u, u ≠ t → m'.type? u = m.type? u
  bare : (m'.type? t).map TypeDef.bare = (m.type? t).map TypeDef.bare

namespace Furnished

variable {t : TypeId} {m m' m'' : Module}

theorem refl (t : TypeId) (m : Module) : Furnished t m m := ⟨rfl, rfl, fun _ _ => rfl, rfl⟩

theorem trans (h : Furnished t m m') (h' : Furnished t m' m'') : Furnished t m m'' where
  registry := h'.registry.trans h.registry
  size := h'.size.trans h.size
  others u hu := (h'.others u hu).trans (h.others u hu)
  bare := h'.bare.trans h.bare

theorem find? (h : Furnished t m m') (n : String) : m'.find? n = m.find? n := by
  rw [Module.find?, h.registry, Module.find?]

theorem exists_type? (h : Furnished t m m') {d : TypeDef} (hd : m.type? t = some d) :
    ∃ d', m'.type? t = some d' ∧ d'.bare = d.bare := by
  simpa [hd] using h.bare

theorem of_types {m m' : Module} (t : TypeId) (hregistry : m'.registry = m.registry)
    (htypes : m'.types = m.types) : Furnished t m m' := by
  have htype : m'.type? = m.type? := funext (Module.type?_of_types htypes)
  exact ⟨hregistry, by rw [htypes], fun u _ => by rw [htype], by rw [htype]⟩

theorem edited {m n : Module} {t : TypeId} {f : TypeDef → TypeDef} (hregistry : n.registry = m.registry)
    (htypes : n.types = m.types) (hf : ∀ d, (f d).bare = d.bare) :
    Furnished t m (n.updateType t f) := by
  refine (of_types t hregistry htypes).trans ⟨rfl, Array.size_modify .., fun u hu => ?_, ?_⟩
  · rw [Module.type?_updateType, if_neg hu.symm]
  · rw [Module.type?_updateType, if_pos rfl, Option.map_map]
    exact congrFun (congrArg Option.map (funext hf)) _

theorem attachMethod (m : Module) (t : TypeId) (i : MethodId) : Furnished t m (m.attachMethod t i) := by
  unfold Module.attachMethod
  exact edited rfl rfl fun _ => rfl

theorem attachField (m : Module) (t : TypeId) (f : Field) : Furnished t m (m.attachField t f) := by
  unfold Module.attachField
  exact edited rfl rfl fun _ => rfl

theorem attachProperty (m : Module) (t : TypeId) (p : Property) :
    Furnished t m (m.attachProperty t p) := by
  unfold Module.attachProperty
  exact edited rfl rfl fun _ => rfl

theorem attachEvent (m : Module) (t : TypeId) (e : Event) : Furnished t m (m.attachEvent t e) := by
  unfold Module.attachEvent
  exact edited rfl rfl fun _ => rfl

theorem declareOn (s : MethodSpec) (t : TypeId) (m : Module) : Furnished t m (s.declareOn t m).2 :=
  (of_types t rfl rfl : Furnished t m (s.declare m).2).trans (attachMethod _ t _)

end Furnished

namespace Declare

variable {α β : Type} {t : TypeId} {m : Module}

/-- What holds of the single steps of a member, and of several steps if it holds of each. -/
structure MemberRule (t : TypeId) (P : {α : Type} → Declare α → Prop) : Prop where
  bind : ∀ {α β : Type} {x : Declare α} {f : α → Declare β}, P x → (∀ a, P (f a)) → P (x >>= f)
  pure : ∀ {α : Type} (a : α), P (Pure.pure a : Declare α)
  drawToken : ∀ table, table ≠ .typeDef → table ≠ .methodDef → P (step (·.drawToken table))
  drawLabels : ∀ ops, P (step (·.drawLabels ops))
  methodOn : ∀ s, P (methodOn t s)
  attachField : ∀ f, P (change (·.attachField t f))
  attachProperty : ∀ p, P (change (·.attachProperty t p))
  attachEvent : ∀ e, P (change (·.attachEvent t e))

namespace MemberRule

variable {P : {α : Type} → Declare α → Prop} (h : MemberRule t P)
include h

theorem bodyOf (ops : List Op) : P (bodyOf ops) := h.bind (h.drawLabels ops) fun _ => h.pure _

theorem fieldOn (name : String) (flags : FieldFlags) (type : TypeId) : P (fieldOn t name flags type) :=
  h.bind (h.drawToken .field (by decide) (by decide)) fun _ => h.bind (h.attachField _) fun _ => h.pure _

theorem backedAccessors (name : String) (type : TypeId) {setter : Field → Declare Body}
    (hsetter : ∀ f, P (setter f)) : P (backedAccessors t name type setter) :=
  h.bind (h.fieldOn _ _ _) fun f => h.bind (h.bodyOf _) fun _ => h.bind (h.methodOn _) fun _ =>
    h.bind (hsetter f) fun _ => h.bind (h.methodOn _) fun _ => h.pure _

theorem propertyOn (p : PropertySpec) : P (propertyOn t p) := by
  have hlisted : ∀ (get : MethodId) (set : Option MethodId), P (do
      let token ← step (·.drawToken .property)
      let property : Property := ⟨token, p.name, p.type, some get, set, p.attributes⟩
      change (·.attachProperty t property)
      return property) := fun get set =>
    h.bind (h.drawToken .property (by decide) (by decide)) fun _ => h.bind (h.attachProperty _) fun _ => h.pure _
  unfold Declare.propertyOn
  cases p.accessors with
  | auto =>
    exact h.bind (h.backedAccessors _ _ fun _ => h.bodyOf _) fun accessors =>
      h.bind (h.pure (accessors.1, some accessors.2)) fun _ => hlisted _ _
  | custom setter =>
    exact h.bind (h.backedAccessors _ _ fun _ => h.pure _) fun accessors =>
      h.bind (h.pure (accessors.1, some accessors.2)) fun _ => hlisted _ _
  | computed getter setter =>
    refine h.bind (h.methodOn _) fun get => ?_
    cases setter with
    | none => exact h.bind (h.pure (get, none)) fun _ => hlisted _ _
    | some body => exact h.bind (h.methodOn _) fun set => h.bind (h.pure (get, some set)) fun _ => hlisted _ _

theorem eventOn (handler : TypeId) (mods : Modifiers) : P (eventOn t handler mods) :=
  h.bind (h.methodOn _) fun _ => h.bind (h.methodOn _) fun _ =>
    h.bind (h.drawToken .event (by decide) (by decide)) fun _ => h.bind (h.attachEvent _) fun _ => h.pure _

end MemberRule

/-- Every run of the steps succeeds and changes nothing but the members of the type. -/
def Furnishes (t : TypeId) (x : Declare α) : Prop :=
  ∀ m, ∃ a m', x.run.run m = (.ok a, m') ∧ Furnished t m m'

theorem Furnishes.bind {x : Declare α} {f : α → Declare β} (hx : Furnishes t x)
    (hf : ∀ a, Furnishes t (f a)) : Furnishes t (x >>= f) := by
  intro m
  obtain ⟨a, m₁, hrun, hfirst⟩ := hx m
  obtain ⟨b, m₂, hrun', hrest⟩ := hf a m₁
  exact ⟨b, m₂, Steps.bind_ok.mpr ⟨a, m₁, hrun, hrun'⟩, hfirst.trans hrest⟩

theorem furnishes_step {f : Module → α × Module} (hf : ∀ m, Furnished t m (f m).2) :
    Furnishes t (step f) :=
  fun m => ⟨(f m).1, (f m).2, rfl, hf m⟩

theorem furnishes_change {f : Module → Module} (hf : ∀ m, Furnished t m (f m)) :
    Furnishes t (change f) :=
  fun m => ⟨(), f m, rfl, hf m⟩

theorem furnishes_member (t : TypeId) : MemberRule t (Furnishes t) where
  bind := .bind
  pure a m := ⟨a, m, rfl, .refl t m⟩
  drawToken _ _ _ := furnishes_step fun _ => .of_types t rfl rfl
  drawLabels _ := furnishes_step fun _ => .of_types t rfl rfl
  methodOn s := furnishes_step (.declareOn s t)
  attachField _ := furnishes_change fun m => .attachField m t _
  attachProperty _ := furnishes_change fun m => .attachProperty m t _
  attachEvent _ := furnishes_change fun m => .attachEvent m t _

theorem discard_run (x : Declare α) (m : Module) :
    (discard x).run.run m = ((x.run.run m).1.map fun _ => PUnit.unit, (x.run.run m).2) := by
  show (Functor.map (fun _ => PUnit.unit) x : Declare PUnit).run.run m = _
  simp only [Functor.map, ExceptT.map, ExceptT.run, ExceptT.mk, StateT.run, bind, StateT.bind]
  cases h : x m with
  | mk result m' => cases result <;> rfl

theorem Furnishes.discard_run {x : Declare α} (hx : Furnishes t x) (m : Module) :
    ∃ m', (discard x).run.run m = (.ok (), m') ∧ Furnished t m m' := by
  obtain ⟨a, m', hrun, hkept⟩ := hx m
  exact ⟨m', by rw [Declare.discard_run, hrun]; rfl, hkept⟩

/-- A member fails only as a changed event for which there is no handler type, and then it changes
nothing. -/
theorem memberOn_cases (t : TypeId) (x : MemberSpec) (m : Module) :
    (m.LacksHandler [x] ∧ (memberOn t x).run.run m = (.error (.unresolved Surface.eventHandler), m))
      ∨ ¬ m.LacksHandler [x] ∧ ∃ m', (memberOn t x).run.run m = (.ok (), m') ∧ Furnished t m m' := by
  cases x with
  | field name type => exact .inr ⟨nofun, ((furnishes_member t).fieldOn _ _ _).discard_run m⟩
  | property p => exact .inr ⟨nofun, ((furnishes_member t).propertyOn p).discard_run m⟩
  | method s => exact .inr ⟨nofun, ((furnishes_member t).methodOn s).discard_run m⟩
  | changedEvent =>
    have hrequire : (require Surface.eventHandler).run.run m = (m.require Surface.eventHandler, m) :=
      rfl
    have hrun : (memberOn t .changedEvent).run.run m = (discard (changedEventOn t)).run.run m := rfl
    rw [hrun, Declare.discard_run, changedEventOn, Steps.bind_run, hrequire, Module.require]
    cases hfind : m.find? Surface.eventHandler with
    | none => exact .inl ⟨⟨rfl, hfind⟩, rfl⟩
    | some handler =>
      obtain ⟨e, m', hevent, hkept⟩ :=
        ((furnishes_member t).fieldOn Surface.changedEvent .privateBit handler).bind
          (fun _ => (furnishes_member t).eventOn handler .virtualBit) m
      exact .inr ⟨fun h => by simp [h.2] at hfind, m', by simp only [hevent]; rfl, hkept⟩

/-- The members in front of the first changed event. -/
def front (members : List MemberSpec) : List MemberSpec := members.takeWhile (!·.isEvent)

/-- All members are added, or those in front of the first changed event if there is no type for its
handlers. -/
theorem forM_memberOn_cases (t : TypeId) (members : List MemberSpec) (m : Module) :
    ∃ m', Furnished t m m' ∧
      ((m.LacksHandler members
          ∧ (members.forM (memberOn t)).run.run m = (.error (.unresolved Surface.eventHandler), m')
          ∧ ((front members).forM (memberOn t)).run.run m = (.ok (), m'))
        ∨ ¬ m.LacksHandler members ∧ (members.forM (memberOn t)).run.run m = (.ok (), m')) := by
  induction members generalizing m with
  | nil => exact ⟨m, .refl t m, .inr ⟨nofun, rfl⟩⟩
  | cons x rest ih =>
    have hcons : ∀ more : List MemberSpec, (x :: more).forM (memberOn t)
        = memberOn t x >>= fun _ => more.forM (memberOn t) := fun more => by
      rw [List.forM_eq_forM, List.forM_cons]
    -- the first member fails, and nothing has changed; or it succeeds, and the
    -- members behind it are in the same position
    rcases memberOn_cases t x m with ⟨hlacks, hrun⟩ | ⟨hfound, m₁, hrun, hkept⟩
    · have hevent : x.isEvent = true := by simpa using hlacks.1
      refine ⟨m, .refl t m, .inl ⟨(m.lacksHandler_cons x rest).mpr (.inl hlacks), ?_, ?_⟩⟩
      · rw [hcons, Steps.bind_run, hrun]
      · rw [front, List.takeWhile_cons_of_neg (by simp [hevent])]
        rfl
    · obtain ⟨m', hrest, hcases⟩ := ih m₁
      have hsame : m₁.LacksHandler rest ↔ m.LacksHandler (x :: rest) := by
        rw [m.lacksHandler_cons, or_iff_right hfound, Module.LacksHandler, hkept.find?, Module.LacksHandler]
      rw [hsame] at hcases
      refine ⟨m', hkept.trans hrest, ?_⟩
      rcases hcases with ⟨hlacks, hall, hfront⟩ | ⟨hfound', hall⟩
      · have hplain : x.isEvent = false := by
          refine Bool.eq_false_iff.mpr fun h => hfound ⟨by simpa using h, hlacks.2⟩
        refine .inl ⟨hlacks, ?_, ?_⟩
        · rw [hcons, Steps.bind_run, hrun]
          exact hall
        · rw [front, List.takeWhile_cons_of_pos (by simp [hplain]), hcons, Steps.bind_run, hrun]
          exact hfront
      · refine .inr ⟨hfound', ?_⟩
        rw [hcons, Steps.bind_run, hrun]
        exact hall

end Declare

/-! ## Types -/

/-- The token of the next type. -/
def Module.nextToken (m : Module) : Token := (m.drawToken .typeDef).1

namespace TypeSpec

variable {s : TypeSpec} {m m' : Module} {base : Option TypeId} {result : Except Error TypeId}

/-- The full name under which the type is registered. -/
def fullName (s : TypeSpec) : String := if s.space.isEmpty then s.name else s.space ++ "." ++ s.name

/-- The full name that the base type is looked up by, if none is given and one is needed. -/
def defaultBase? (s : TypeSpec) : Option String :=
  match s.base, s.kind with
  | some _, _ => none
  | none, .interfaceType => none
  | none, .valueType => some Surface.valueType
  | none, .classType => some Surface.object

theorem baseType_run (s : TypeSpec) (m : Module) :
    s.baseType.run.run m = (match s.defaultBase? with
      | none => .ok s.base
      | some n => (m.require n).map some, m) := by
  have hrequire : ∀ n, (some <$> Declare.require n : Declare (Option TypeId)).run.run m
      = ((m.require n).map some, m) := fun n => by
    show (ExceptT.map some (Declare.require n)).run.run m = _
    simp only [ExceptT.map, ExceptT.run, ExceptT.mk, StateT.run, bind, StateT.bind, Declare.require]
    cases m.require n <;> rfl
  unfold baseType defaultBase?
  cases s.base with
  | some b => rfl
  | none => cases s.kind <;> first | rfl | exact hrequire _

/-- The type as it is registered: it lists neither interfaces nor members yet. -/
def blank (s : TypeSpec) (base : Option TypeId) (m : Module) : TypeDef :=
  { token := m.nextToken, space := s.space, name := s.name, flavor := s.kind.flavor, external := false, base }

/-- The module in which the type is registered. -/
def registered (s : TypeSpec) (base : Option TypeId) (m : Module) : Module :=
  ((m.drawToken .typeDef).2.addType (s.blank base m)).2.register ⟨m.types.size⟩

/-- The type without its members. -/
def opened (s : TypeSpec) (base : Option TypeId) (m : Module) : TypeDef :=
  { s.blank base m with
    interfaces := (s.registered base m).allInterfaces s.interfaces
    attributes := s.attributes }

/-- The module to which the members are added. -/
def opening (s : TypeSpec) (base : Option TypeId) (m : Module) : Module :=
  (s.registered base m).updateType ⟨m.types.size⟩ fun d =>
    { d with
      interfaces := (s.registered base m).allInterfaces s.interfaces
      attributes := s.attributes }

theorem type?_registered (s : TypeSpec) (base : Option TypeId) (m : Module) :
    (s.registered base m).type? ⟨m.types.size⟩ = some (s.blank base m) := by
  rw [registered, Module.type?_register]
  exact (m.drawToken .typeDef).2.type?_addType_new _

theorem type?_registered_of_ne (s : TypeSpec) (base : Option TypeId) (m : Module) {u : TypeId}
    (hu : u ≠ ⟨m.types.size⟩) : (s.registered base m).type? u = m.type? u := by
  have hne : u.index ≠ m.types.size := fun h => hu (congrArg TypeId.mk h)
  rw [registered, Module.type?_register]
  simp [Module.addType, Module.drawToken, Module.type?, Array.getElem?_push, hne]

theorem registry_opening (s : TypeSpec) (base : Option TypeId) (m : Module) :
    (s.opening base m).registry = m.registry.insert m.nextToken s.fullName ⟨m.types.size⟩ := by
  have hnew : ((m.drawToken .typeDef).2.addType (s.blank base m)).2.type? ⟨m.types.size⟩
      = some (s.blank base m) := (m.drawToken .typeDef).2.type?_addType_new _
  show (s.registered base m).registry = _
  rw [registered, Module.register_of_some hnew]
  rfl

theorem type?_opening (s : TypeSpec) (base : Option TypeId) (m : Module) :
    (s.opening base m).type? ⟨m.types.size⟩ = some (s.opened base m) := by
  rw [opening, Module.type?_updateType, if_pos rfl, type?_registered]
  rfl

theorem type?_opening_of_ne (s : TypeSpec) (base : Option TypeId) (m : Module) {u : TypeId}
    (hu : u ≠ ⟨m.types.size⟩) : (s.opening base m).type? u = m.type? u := by
  rw [opening, Module.type?_updateType, if_neg hu.symm, type?_registered_of_ne s base m hu]

theorem declare_run (h : s.baseType.run.run m = (.ok base, m)) :
    s.declare.run.run m
      = ((s.members.forM (Declare.memberOn ⟨m.types.size⟩)) >>= fun _ => pure ⟨m.types.size⟩).run.run
          (s.opening base m) := by
  have hbare : (Declare.bareType s.space s.name s.kind.flavor false base).run.run m
      = (.ok ⟨m.types.size⟩, s.registered base m) := rfl
  rw [declare, Steps.bind_run, h]
  simp only []
  rw [Steps.bind_run, hbare]
  rfl

/-- The description without the first changed event and what comes behind it. -/
def front (s : TypeSpec) : TypeSpec := { s with members := Declare.front s.members }

/-- The base type is needed and not there. -/
def LacksBase (s : TypeSpec) (m : Module) (e : Error) : Prop :=
  ∃ n, s.defaultBase? = some n ∧ m.find? n = none ∧ e = .unresolved n

theorem baseType_cases (s : TypeSpec) (m : Module) :
    (∃ e, s.LacksBase m e ∧ s.baseType.run.run m = (.error e, m))
      ∨ (∀ e, ¬ s.LacksBase m e) ∧ ∃ base, s.baseType.run.run m = (.ok base, m) := by
  rw [baseType_run]
  cases hbase : s.defaultBase? with
  | none =>
    exact .inr ⟨fun e ⟨n, h, _⟩ => by simp [hbase] at h, s.base, rfl⟩
  | some n =>
    simp only [Module.require]
    cases hfind : m.find? n with
    | none => exact .inl ⟨_, ⟨n, hbase, hfind, rfl⟩, rfl⟩
    | some b =>
      refine .inr ⟨fun e ⟨n', h, hnone, _⟩ => ?_, some b, rfl⟩
      obtain rfl := Option.some.inj (hbase.symm.trans h)
      simp [hfind] at hnone

theorem not_lacksBase (h : s.baseType.run.run m = (.ok base, m)) (e : Error) : ¬ s.LacksBase m e := by
  rcases s.baseType_cases m with ⟨e', -, hrun⟩ | ⟨hfound, -⟩
  · cases h.symm.trans hrun
  · exact hfound e

theorem declare_cases (s : TypeSpec) (m : Module) :
    (∃ e, s.LacksBase m e ∧ s.declare.run.run m = (.error e, m))
      ∨ (∀ e, ¬ s.LacksBase m e) ∧ ∃ base m', s.baseType.run.run m = (.ok base, m)
        ∧ Furnished ⟨m.types.size⟩ (s.opening base m) m'
        ∧ ((m'.LacksHandler s.members
              ∧ s.declare.run.run m = (.error (.unresolved Surface.eventHandler), m')
              ∧ s.front.declare.run.run m = (.ok ⟨m.types.size⟩, m'))
          ∨ ¬ m'.LacksHandler s.members ∧ s.declare.run.run m = (.ok ⟨m.types.size⟩, m')) := by
  rcases s.baseType_cases m with ⟨e, hlacks, hrun⟩ | ⟨hfound, base, hrun⟩
  · refine .inl ⟨e, hlacks, ?_⟩
    rw [declare, Steps.bind_run, hrun]
  · obtain ⟨m', hkept, hcases⟩ :=
      Declare.forM_memberOn_cases ⟨m.types.size⟩ s.members (s.opening base m)
    have hsame : m'.LacksHandler s.members ↔ (s.opening base m).LacksHandler s.members := by
      rw [Module.LacksHandler, hkept.find?, Module.LacksHandler]
    refine .inr ⟨hfound, base, m', hrun, hkept, ?_⟩
    rw [hsame]
    rcases hcases with ⟨hlacks, hall, hfront⟩ | ⟨hfound, hall⟩
    · refine .inl ⟨hlacks, ?_, ?_⟩
      · rw [declare_run hrun, Steps.bind_run, hall]
      · have hrun' : s.front.baseType.run.run m = (.ok base, m) := hrun
        have hfront' : (s.front.members.forM (Declare.memberOn ⟨m.types.size⟩)).run.run
            (s.front.opening base m) = (.ok (), m') := hfront
        rw [declare_run hrun', Steps.bind_run, hfront']
        rfl
    · refine .inr ⟨hfound, ?_⟩
      rw [declare_run hrun, Steps.bind_run, hall]
      rfl

/-- A declaration that succeeds gives the next type, with its members. -/
theorem declare_ok {t : TypeId} (h : s.declare.run.run m = (.ok t, m')) :
    t = ⟨m.types.size⟩ ∧ ∃ base, s.baseType.run.run m = (.ok base, m)
      ∧ Furnished ⟨m.types.size⟩ (s.opening base m) m' := by
  rcases s.declare_cases m with ⟨e, -, hrun⟩ | ⟨-, base, m₁, hbase, hkept, ⟨-, hrun, -⟩ | ⟨-, hrun⟩⟩
  · cases h.symm.trans hrun
  · cases h.symm.trans hrun
  · obtain ⟨ht, rfl⟩ := Prod.mk.inj (h.symm.trans hrun)
    exact ⟨Except.ok.inj ht, base, hbase, hkept⟩

/-- A declaration fails for want of the base type, and then it changes nothing; or for want of the handler
type, and then it leaves what the members in front of the first changed event make. -/
theorem declare_eq_error_iff {e : Error} :
    s.declare.run.run m = (.error e, m') ↔
      (s.LacksBase m e ∧ m' = m)
        ∨ e = .unresolved Surface.eventHandler ∧ m'.LacksHandler s.members
          ∧ s.front.declare.run.run m = (.ok ⟨m.types.size⟩, m') := by
  constructor
  · intro h
    rcases s.declare_cases m with ⟨e', hlacks, hrun⟩ | ⟨-, base, m₁, -, -, ⟨hlacks, hrun, hfront⟩ | ⟨-, hrun⟩⟩
    · obtain ⟨he, rfl⟩ := Prod.mk.inj (h.symm.trans hrun)
      obtain rfl := Except.error.inj he
      exact .inl ⟨hlacks, rfl⟩
    · obtain ⟨he, rfl⟩ := Prod.mk.inj (h.symm.trans hrun)
      exact .inr ⟨Except.error.inj he, hlacks, hfront⟩
    · cases h.symm.trans hrun
  · rintro (⟨hlacks, rfl⟩ | ⟨rfl, hlacks, hfront⟩)
    · rcases s.declare_cases m' with ⟨e', hlacks', hrun⟩ | ⟨hfound, -⟩
      · obtain ⟨n, hbase, hfind, rfl⟩ := hlacks
        obtain ⟨n', hbase', -, rfl⟩ := hlacks'
        obtain rfl := Option.some.inj (hbase.symm.trans hbase')
        exact hrun
      · exact absurd hlacks (hfound e)
    -- the declaration of the front members succeeds, so the base type is
    -- there and the other two cases are left
    · obtain ⟨-, base, hbase, hkept⟩ := declare_ok hfront
      replace hbase : s.baseType.run.run m = (.ok base, m) := hbase
      rcases s.declare_cases m with ⟨e', hlacks', -⟩ | ⟨-, base', m₁, hbase', hkept', hcases⟩
      · exact absurd hlacks' (not_lacksBase hbase e')
      · obtain ⟨hsame, -⟩ := Prod.mk.inj (hbase.symm.trans hbase')
        obtain rfl := Except.ok.inj hsame
        rcases hcases with ⟨-, hrun, hfront'⟩ | ⟨hfound, -⟩
        · obtain ⟨-, rfl⟩ := Prod.mk.inj (hfront.symm.trans hfront')
          exact hrun
        · refine absurd ⟨hlacks.1, ?_⟩ hfound
          rw [hkept'.find?, ← hlacks.2, hkept.find?]
          rfl

theorem registry_declared {t : TypeId} (h : s.declare.run.run m = (.ok t, m')) :
    m'.registry = m.registry.insert m.nextToken s.fullName t := by
  obtain ⟨rfl, base, -, hkept⟩ := declare_ok h
  rw [hkept.registry, registry_opening]

/-- A declared type is found by its full name if no other one is. -/
theorem find?_declared {t : TypeId} (hnew : m.registry.Unrecorded m.nextToken)
    (h : s.declare.run.run m = (.ok t, m')) : m'.find? s.fullName = (m.find? s.fullName).or (some t) := by
  rw [Module.find?, registry_declared h, Registry.find?_insert hnew, if_pos rfl]
  rfl

/-- What a declaration leaves that has failed behind the registration of the type. -/
structure LeftHalf (s : TypeSpec) (m m' : Module) : Prop where
  lacks : m'.LacksHandler s.members
  /-- The type is there, with the members in front of the first changed event. -/
  front : s.front.declare.run.run m = (.ok ⟨m.types.size⟩, m')
  registry : m'.registry = m.registry.insert m.nextToken s.fullName ⟨m.types.size⟩
  byToken : m'.registry.get? m.nextToken = some ⟨m.types.size⟩
  byName : m.registry.Unrecorded m.nextToken →
    m'.find? s.fullName = (m.find? s.fullName).or (some ⟨m.types.size⟩)
  /-- From then on the name stands for it, however often the type is declared later. -/
  hides : m.registry.Unrecorded m.nextToken → m.find? s.fullName = none → ∀ n t n',
    m'.registry.Keeps n.registry → n.type? ⟨m.types.size⟩ = m'.type? ⟨m.types.size⟩ →
      n.registry.Unrecorded n.nextToken → s.declare.run.run n = (.ok t, n') →
        n'.find? s.fullName = some ⟨m.types.size⟩ ∧ t ≠ ⟨m.types.size⟩
          ∧ n'.type? ⟨m.types.size⟩ = m'.type? ⟨m.types.size⟩

theorem leftHalf (hlacks : m'.LacksHandler s.members)
    (hfront : s.front.declare.run.run m = (.ok ⟨m.types.size⟩, m')) : s.LeftHalf m m' where
  lacks := hlacks
  front := hfront
  registry := registry_declared (s := s.front) hfront
  byToken := by rw [registry_declared hfront, Registry.get?_insert, if_pos rfl]
  byName hnew := find?_declared (s := s.front) hnew hfront
  hides hnew hunknown n t n' hkeeps hstands hnew' hagain := by
    have hfound : m'.find? s.fullName = some ⟨m.types.size⟩ := by
      have hname := find?_declared hnew hfront
      rw [show s.front.fullName = s.fullName from rfl, hunknown] at hname
      exact hname
    have hthere : n.find? s.fullName = some ⟨m.types.size⟩ := Registry.find?_of_keeps hkeeps hfound
    obtain ⟨-, base, -, hkept⟩ := declare_ok hfront
    obtain ⟨d, hd, -⟩ := hkept.exists_type? (type?_opening s.front base m)
    have hlt : m.types.size < n.types.size := Module.index_lt_of_type? (hstands.trans hd)
    obtain ⟨rfl, base', -, hkept'⟩ := declare_ok hagain
    have hne : (⟨m.types.size⟩ : TypeId) ≠ ⟨n.types.size⟩ := fun h =>
      absurd (congrArg TypeId.index h) (Nat.ne_of_lt hlt)
    refine ⟨?_, hne.symm, ?_⟩
    · rw [find?_declared hnew' hagain, hthere]
      rfl
    · rw [hkept'.others _ hne, type?_opening_of_ne s base' n hne, hstands]

/-- If the base type is missing, a failed declaration leaves nothing, and the type is found once it is
declared. If the handler type is missing, it leaves a registered type with a part of the members, and that
type is what its name stands for from then on. -/
theorem failed_declaration {e : Error} (h : s.declare.run.run m = (.error e, m')) :
    (s.LacksBase m e ∧ m' = m
        ∧ ∀ n t n', n.find? s.fullName = none → n.registry.Unrecorded n.nextToken →
            s.declare.run.run n = (.ok t, n') → n'.find? s.fullName = some t)
      ∨ e = .unresolved Surface.eventHandler ∧ s.LeftHalf m m' := by
  rcases declare_eq_error_iff.mp h with ⟨hlacks, rfl⟩ | ⟨he, hlacks, hfront⟩
  · refine .inl ⟨hlacks, rfl, fun n t n' hunknown hnew hrun => ?_⟩
    rw [find?_declared hnew hrun, hunknown]
    rfl
  · exact .inr ⟨he, leftHalf hlacks hfront⟩

end TypeSpec

/-! ## An event without a handler type -/

namespace Premature

/-- A module with the root of all types and nothing else. -/
def module : Module :=
  ((Declare.bareType "System" "Object" .object true none).run.run { name := "Sample" }).2

/-- A type with a changed event. -/
def observable : TypeSpec := { space := "Sample", name := "Observable", members := [.changedEvent] }

/-- What the declaration leaves in the module. -/
def left : Module := (observable.declare.run.run module).2

/-- The same module with the handler type. -/
def supplied : Module :=
  ((Declare.bareType "System.ComponentModel" "PropertyChangedEventHandler" .classType true
    (some ⟨0⟩)).run.run left).2

/-- The type is declared once more. -/
def complete : Module := (observable.declare.run.run supplied).2

theorem fails : observable.declare.run.run module = (.error (.unresolved Surface.eventHandler), left) := by
  have hresult : (observable.declare.run.run module).1 = .error (.unresolved Surface.eventHandler) := by
    decide +kernel
  rw [← hresult, left, Prod.eta]

theorem succeeds : observable.declare.run.run supplied = (.ok ⟨3⟩, complete) := by
  have hresult : (observable.declare.run.run supplied).1 = .ok ⟨3⟩ := by decide +kernel
  rw [← hresult, complete, Prod.eta]

theorem keeps_supplied : left.registry.Keeps supplied.registry :=
  Registry.keeps_insert (by decide +kernel) _ _

end Premature

open Premature in
/-- The second declaration is hidden by what the first one left. -/
theorem failed_declaration_premature :
    observable.declare.run.run module = (.error (.unresolved Surface.eventHandler), left)
      ∧ observable.LeftHalf module left
      ∧ observable.declare.run.run supplied = (.ok ⟨3⟩, complete)
      ∧ complete.find? "Sample.Observable" = some ⟨1⟩ := by
  rcases TypeSpec.failed_declaration fails with ⟨hlacks, -⟩ | ⟨-, hleft⟩
  · obtain ⟨n, hbase, -, he⟩ := hlacks
    obtain rfl := Option.some.inj hbase
    exact absurd he (by decide)
  · have hstands : supplied.type? ⟨1⟩ = left.type? ⟨1⟩ := by decide +kernel
    have hnew : module.registry.Unrecorded module.nextToken := by decide +kernel
    have hunknown : module.find? observable.fullName = none := by decide +kernel
    have hnew' : supplied.registry.Unrecorded supplied.nextToken := by decide +kernel
    have hfound := (hleft.hides hnew hunknown supplied ⟨3⟩ complete keeps_supplied hstands hnew' succeeds).1
    rw [show observable.fullName = "Sample.Observable" by decide +kernel] at hfound
    exact ⟨fails, hleft, succeeds, hfound⟩

open Premature in
/-- A failed declaration does not leave the registry as it was. -/
theorem failed_declaration_registers :
    ¬ ∀ (s : TypeSpec) (m m' : Module) (e : Error), s.declare.run.run m = (.error e, m') →
      (∀ k, m'.registry.get? k = m.registry.get? k) ∧ ∀ n, m'.find? n = m.find? n := by
  intro hall
  have hname := (hall observable module left _ fails).2 "Sample.Observable"
  exact absurd hname (by decide +kernel)

end SetterLoom
