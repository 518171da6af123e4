import SetterLoom.Proofs.Weave.Kinds

/-!
# What a pass leaves alone

A pass edits the setters of the properties that it comes to and declares handlers with their types. All else
in the module stays as it is, whether the pass succeeds or ends early: the registry, the types but for the
lists of their methods, every other method, and the setters that were marked before. A pass that ends early
comes to no property behind the one that failed.

* `Module.Confined`: what may have happened to a module, for the properties that a pass came to.
* `Confined.trans`: one property after the other.
* `confined_checkedSetter`, `Course.confined`: a weave of a setter, and a pass that succeeds.
* `Weaver.weave_confined`: any pass.
-/

namespace SetterLoom
set_option autoImplicit false

/-- The method can be called on an object of its type only by that type, with a sender and the arguments of
an event, and has the name of the handler of a property. -/
structure Method.IsHandlerOf (d : Method) (p : Property) : Prop where
  access : d.access = .privateAccess
  isInstance : d.isStatic = false
  name : d.name = delegateName p.name
  params : d.params.length = 2

theorem Method.IsHandlerOf.edit {d : Method} {p : Property} (h : d.IsHandlerOf p) (body : Option Body)
    (attributes : List String) : { d with body, attributes }.IsHandlerOf p :=
  ⟨h.access, h.isInstance, h.name, h.params⟩

namespace Module

theorem Shaped.typeName? {m m' : Module} (h : m.Shaped m') (t : TypeId) :
    m'.typeName? t = m.typeName? t := by
  have hshape : ∀ x : Option TypeDef, x.map (·.fullName) = (x.map TypeDef.shape).map (·.fullName) := by
    intro x
    cases x <;> rfl
  unfold Module.typeName?
  rw [hshape, h.types, ← hshape]

variable {visits visits' : List (TypePlan × PropertyPlan)} {edited edited' : List MethodId}
  {v : TypePlan × PropertyPlan} {m m' m'' n : Module} {i j : MethodId} {t : TypeId} {d : Method}

/-- Methods that a type got from a pass: handlers of some of the type's properties that the pass came to, in
their order, each with a setter of its own among the edited ones. -/
def Handed (visits : List (TypePlan × PropertyPlan)) (edited : List MethodId) (m m' : Module) (t : TypeId)
    (added : List MethodId) : Prop :=
  ∃ followed : List (TypePlan × PropertyPlan), followed.Sublist (visits.filter (·.1.type = t))
    ∧ (followed.map (·.2.property.setter)).Sublist (edited.map some)
    ∧ List.Forall₂ (fun v j => m.method? j = none ∧ ∃ e, m'.method? j = some e ∧ e.IsHandlerOf v.2.property)
      followed added

/-- What a pass may have done to a module when it came to some properties and edited some of their setters. -/
structure Confined (visits : List (TypePlan × PropertyPlan)) (edited : List MethodId) (m m' : Module) :
    Prop where
  name : m'.name = m.name
  registry : m'.registry = m.registry
  owners : m'.owners = m.owners
  shaped : m.Shaped m'
  size : m.methods.size ≤ m'.methods.size
  /-- A method that is no setter of the properties is as it was. -/
  others : ∀ i, i.index < m.methods.size → (∀ v ∈ visits, v.2.property.setter ≠ some i) →
    m'.method? i = m.method? i
  /-- So is a setter that was marked before. -/
  marked : ∀ i d, m.method? i = some d → d.hasAttribute Surface.woven = true → m'.method? i = some d
  /-- The other setters have other bodies and attributes at most. -/
  setters : ∀ i d, m.method? i = some d → ∃ body attributes, m'.method? i = some { d with body, attributes }
  /-- A type has the methods that it had, in their order, and behind them the handlers. -/
  lists : ∀ t d, m.type? t = some d → ∃ added, m'.type? t = some { d with methods := d.methods ++ added }
    ∧ Handed visits edited m m' t added

theorem handed_nil : Handed visits edited m m' t [] := ⟨[], List.nil_sublist _, List.nil_sublist _, .nil⟩

namespace Confined

theorem refl (visits : List (TypePlan × PropertyPlan)) (edited : List MethodId) (m : Module) :
    m.Confined visits edited m where
  name := rfl
  registry := rfl
  owners := rfl
  shaped := .refl m
  size := Nat.le_refl _
  others _ _ _ := rfl
  marked _ _ hd _ := hd
  setters _ d hd := ⟨d.body, d.attributes, hd⟩
  lists _ d hd := ⟨[], by rw [hd, List.append_nil], handed_nil⟩

theorem trans (h : m.Confined visits edited m') (h' : m'.Confined visits' edited' m'') :
    m.Confined (visits ++ visits') (edited ++ edited') m'' where
  name := h'.name.trans h.name
  registry := h'.registry.trans h.registry
  owners := h'.owners.trans h.owners
  shaped := h.shaped.trans h'.shaped
  size := Nat.le_trans h.size h'.size
  others i hi hnone := by
    rw [h'.others i (Nat.lt_of_lt_of_le hi h.size) fun v hv => hnone v (List.mem_append_right _ hv)]
    exact h.others i hi fun v hv => hnone v (List.mem_append_left _ hv)
  marked i d hd hmarked := h'.marked i d (h.marked i d hd hmarked) hmarked
  setters i d hd := by
    obtain ⟨body, attributes, hd'⟩ := h.setters i d hd
    exact h'.setters i { d with body, attributes } hd'
  lists t d hd := by
    obtain ⟨added, hd', followed, hvisits, hedited, hadded⟩ := h.lists t d hd
    obtain ⟨added', hd'', followed', hvisits', hedited', hadded'⟩ := h'.lists t _ hd'
    refine ⟨added ++ added', by rw [hd'', List.append_assoc], followed ++ followed', ?_, ?_, ?_⟩
    · rw [List.filter_append]
      exact hvisits.append hvisits'
    · rw [List.map_append, List.map_append]
      exact hedited.append hedited'
    · refine List.rel_append (hadded.imp ?_) (hadded'.imp ?_)
      · rintro v j ⟨hnone, e, he, hhandler⟩
        obtain ⟨body, attributes, he'⟩ := h'.setters j e he
        exact ⟨hnone, _, he', hhandler.edit body attributes⟩
      · rintro v j ⟨hnone, hhandler⟩
        refine ⟨?_, hhandler⟩
        -- a method of the first module would still be there
        cases hj : m.method? j with
        | none => rfl
        | some e =>
          obtain ⟨body, attributes, he⟩ := h.setters j e hj
          rw [hnone] at he
          cases he

theorem updateMethod (h : m.Confined visits edited n) (hv : v ∈ visits)
    (hset : v.2.property.setter = some i) (hunmarked : m.isWoven i = false) {f : Method → Method}
    (hf : ∀ d, ∃ body attributes, f d = { d with body, attributes }) :
    m.Confined visits edited (n.updateMethod i f) where
  name := h.name
  registry := h.registry
  owners := h.owners
  shaped := h.shaped.trans (.of_types rfl)
  size := by
    show _ ≤ (n.methods.modify _ _).size
    rw [Array.size_modify]
    exact h.size
  others j hj hnone := by
    have hne : i ≠ j := by
      rintro rfl
      exact hnone v hv hset
    rw [method?_updateMethod, if_neg hne]
    exact h.others j hj hnone
  marked j d hd hmarked := by
    have hne : i ≠ j := by
      rintro rfl
      rw [isWoven_eq hd, hmarked] at hunmarked
      cases hunmarked
    rw [method?_updateMethod, if_neg hne]
    exact h.marked j d hd hmarked
  setters j d hd := by
    obtain ⟨body, attributes, hd'⟩ := h.setters j d hd
    rw [method?_updateMethod, hd']
    split
    · obtain ⟨body', attributes', heq⟩ := hf { d with body, attributes }
      exact ⟨body', attributes', congrArg some heq⟩
    · exact ⟨body, attributes, rfl⟩
  lists t d hd := by
    obtain ⟨added, hd', followed, hvisits, hedited, hadded⟩ := h.lists t d hd
    refine ⟨added, hd', followed, hvisits, hedited, hadded.imp ?_⟩
    rintro v j ⟨hnone, e, he, hhandler⟩
    refine ⟨hnone, ?_⟩
    rw [method?_updateMethod, he]
    split
    · obtain ⟨body, attributes, heq⟩ := hf e
      exact ⟨_, rfl, heq ▸ hhandler.edit body attributes⟩
    · exact ⟨e, rfl, hhandler⟩

theorem withSerial (h : m.Confined visits edited n) (a b : Nat) :
    Confined visits edited { m with serial := a } { n with serial := b } :=
  ⟨h.name, h.registry, h.owners, ⟨h.shaped.size, h.shaped.types⟩, h.size, h.others, h.marked, h.setters,
    h.lists⟩

end Confined

theorem confined_declareOn {s : MethodSpec} (hset : v.2.property.setter = some i)
    (hs : ∀ token, (s.entry token v.1.type).IsHandlerOf v.2.property) (m : Module) :
    m.Confined [v] [i] (s.declareOn v.1.type m).2 where
  name := rfl
  registry := rfl
  owners := rfl
  shaped := shaped_declareOn s v.1.type m
  size := by
    show _ ≤ ((m.methods.push _).modify _ _).size
    rw [Array.size_modify, Array.size_push]
    exact Nat.le_succ _
  others j hj _ := by
    rw [method?_declareOn_eq, if_neg]
    rintro rfl
    exact Nat.lt_irrefl _ hj
  marked j d hd _ := method?_declareOn s v.1.type m hd
  setters j d hd := ⟨d.body, d.attributes, method?_declareOn s v.1.type m hd⟩
  lists t d hd := by
    have hgains := gains_declareOn s v.1.type m i
    by_cases ht : t = v.1.type
    · subst ht
      have hentry := (method?_declareOn_eq s v.1.type m ⟨m.methods.size⟩).trans (if_pos rfl)
      -- the type that the method is declared with lists it behind the others
      exact ⟨[⟨m.methods.size⟩], by rw [hgains.type, hd]; rfl, [v], by simp, by simp [hset],
        .cons ⟨by simp [method?], _, hentry, hs _⟩ .nil⟩
    · exact ⟨[], by rw [hgains.types t ht, hd, List.append_nil], handed_nil⟩

end Module

namespace Weaving

variable {options : Options} {resolver : Resolver} {w w' : Workpiece} {i j : MethodId} {n : Module}
  {visits : List (TypePlan × PropertyPlan)} {edited : List MethodId} {v : TypePlan × PropertyPlan}

/-! ## One property -/

theorem confined_declareHandler {ctx : BlockContext} (hset : ctx.property.property.setter = some i)
    (h : ctx.declareHandler = .ok (j, n)) :
    ctx.module.Confined [(ctx.type, ctx.property)] [i] n := by
  obtain ⟨object, arguments, draft, -, -, -, hdeclared⟩ := declareHandler_ok h
  obtain ⟨-, rfl⟩ := Prod.mk.inj hdeclared
  have hstart := Module.confined_declareOn (v := (ctx.type, ctx.property)) hset
    (s :=
      { name := delegateName ctx.property.property.name
        params := [⟨"s", object⟩, ⟨"e", arguments⟩]
        body := some draft.body })
    (fun _ => ⟨rfl, (by decide : Modifiers.hideBySig.contains .staticBit = false), rfl, rfl⟩)
    { ctx.module with serial := draft.serial }
  exact hstart.withSerial ctx.module.serial draft.serial

theorem confined_checkedSetter {result : Except Error WovenSetter}
    (hunmarked : isMarked w.module v.2.property = false)
    (hrun : (checkedSetter options resolver v.1 v.2).run.run w = (result, w')) :
    w.module.Confined [v] v.2.property.setter.toList w'.module := by
  obtain ⟨result', hsetter⟩ := exists_setter_run hrun
  rcases setter_leaves hsetter with hsame | ⟨i, d, body, n, draft, hset, hd, -, hn, -, hmodule⟩
  · rw [hsame]
    exact .refl _ _ _
  · have hwoven : w.module.isWoven i = false := by
      rwa [isMarked_eq, hset, Option.any_some] at hunmarked
    have hdeclared : w.module.Confined [v] [i] n := by
      rcases hn with rfl | ⟨j, hdeclare⟩
      · exact .refl _ _ _
      · exact confined_declareHandler hset hdeclare
    have hedited := hdeclared.updateMethod List.mem_cons_self hset hwoven
      (f := fun d => { d with body := some draft.body }) fun d => ⟨_, _, rfl⟩
    rw [hmodule, hset]
    exact hedited.withSerial w.module.serial draft.serial

theorem Course.confined (h : Course options resolver w visits edited w') :
    w.module.Confined visits edited w'.module := by
  induction h with
  | done w => exact .refl _ _ _
  | @skipped w _ v _ _ _ _ ih => exact (Module.Confined.refl [v] [] w.module).trans ih
  | @woven w w₁ _ v _ _ i _ hunmarked hset hchecked _ ih =>
    have hwoven : w.module.isWoven i = false := by
      rwa [isMarked_eq, hset, Option.any_some] at hunmarked
    have hedited := confined_checkedSetter hunmarked hchecked
    rw [hset] at hedited
    have hmarked : w.module.Confined [v] [i] (Workpiece.mark w₁ i).module :=
      hedited.updateMethod List.mem_cons_self hset hwoven fun d => ⟨d.body, _, rfl⟩
    exact hmarked.trans ih

theorem Course.isWoven_of_mem_edited (h : Course options resolver w visits edited w') (hi : i ∈ edited) :
    w'.module.isWoven i = true := by
  induction h with
  | done => cases hi
  | skipped _ _ ih => exact ih hi
  | woven _ hset hchecked hmore ih =>
    rcases List.mem_cons.mp hi with rfl | hi
    · obtain ⟨d, -, -, hwoven⟩ := mark_checked hset hchecked
      exact hmore.marks i hwoven
    · exact ih hi

/-! ## A pass that ends early -/

theorem foldlM_error {α β : Type} {f : β → α → Weaving β} {l : List α} {b : β} {e : Error}
    (h : (l.foldlM f b).run.run w = (.error e, w')) :
    ∃ front a rest b₁ w₁, l = front ++ a :: rest ∧ (front.foldlM f b).run.run w = (.ok b₁, w₁)
      ∧ (f b₁ a).run.run w₁ = (.error e, w') := by
  induction l generalizing b w with
  | nil => cases (Prod.mk.inj h).1
  | cons a l ih =>
    rw [List.foldlM_cons] at h
    rcases Steps.bind_cases h with ⟨e', hfirst, he⟩ | ⟨b₁, w₁, hfirst, hrest⟩
    · obtain rfl := Except.error.inj he
      exact ⟨[], a, l, b, w, rfl, rfl, hfirst⟩
    · obtain ⟨front, a', rest, b₂, w₂, rfl, hfront, hfails⟩ := ih hrest
      refine ⟨a :: front, a', rest, b₂, w₂, rfl, ?_, hfails⟩
      rw [List.foldlM_cons]
      exact Steps.bind_ok.mpr ⟨b₁, w₁, hfirst, hfront⟩

/-- A pass that fails does so at one property, behind a pass over the properties in front of it. -/
theorem exists_failed {plans : List TypePlan} {e : Error}
    (h : (all options resolver plans).run.run w = (.error e, w')) :
    ∃ front v rest edited w₁ cause, TypePlan.listed plans = front ++ v :: rest
      ∧ Course options resolver w front edited w₁ ∧ isMarked w₁.module v.2.property = false
      ∧ (checkedSetter options resolver v.1 v.2).run.run w₁ = (.error cause, w')
      ∧ e = .weave ((w.module.typeName? v.1.type).getD "") v.2.property.name cause := by
  obtain ⟨plans₁, type, plans₂, s, w₀, rfl, hplans, htype⟩ := foldlM_error h
  obtain ⟨edited, hcourse, -⟩ := course_of_plans hplans
  rw [type_run] at htype
  obtain ⟨front, plan, rest, s₁, w₁, hproperties, hfront, hfails⟩ := foldlM_error htype
  obtain ⟨edited₁, hcourse₁, -⟩ := course_of_properties hfront
  have hname : w₀.module.typeName? type.type = w.module.typeName? type.type :=
    hcourse.confined.shaped.typeName? type.type
  rcases property_cases hfails with ⟨-, hresult, -⟩
    | ⟨hunmarked, ⟨cause, hchecked, hresult⟩ | ⟨woven, w₂, i, -, -, hresult, -⟩⟩
  · cases hresult
  · refine ⟨TypePlan.listed plans₁ ++ front.map (type, ·), (type, plan),
      rest.map (type, ·) ++ TypePlan.listed plans₂, edited ++ edited₁, w₁, cause, ?_,
      hcourse.append hcourse₁, hunmarked, hchecked, ?_⟩
    · simp [TypePlan.listed, hproperties]
    · rw [← hname]
      exact Except.error.inj hresult
  · cases hresult

end Weaving

/-- **What a pass leaves alone.** Behind a pass that succeeds, only what the listed properties call for has
happened to the module. A pass that ends early does so at one of them, whose name and type the error gives,
and only what that property and those listed in front of it call for has happened, in whole or in part. No
setter is edited twice. -/
theorem Weaver.weave_confined (w : Weaver) (plans : List TypePlan) (m : Module) :
    ∃ visited edited, m.Confined visited edited (w.weave plans m).2.2 ∧ edited.Nodup
      ∧ ((∃ s, (w.weave plans m).1 = .ok s) ∧ visited = TypePlan.listed plans
        ∨ ∃ front v rest cause, TypePlan.listed plans = front ++ v :: rest ∧ visited = front ++ [v]
          ∧ (w.weave plans m).1
            = .error (.weave ((m.typeName? v.1.type).getD "") v.2.property.name cause)) := by
  rcases hweave : w.weave plans m with ⟨result, w', m'⟩
  obtain ⟨piece, hrun, rfl⟩ := exists_run hweave
  cases result with
  | ok s =>
    obtain ⟨edited, hcourse, -⟩ := Weaving.course_of_plans hrun
    exact ⟨_, edited, hcourse.confined, hcourse.nodup, .inl ⟨⟨s, rfl⟩, rfl⟩⟩
  | error e =>
    obtain ⟨front, v, rest, edited, w₁, cause, hlisted, hcourse, hunmarked, hchecked, rfl⟩ :=
      Weaving.exists_failed hrun
    refine ⟨front ++ [v], edited ++ v.2.property.setter.toList,
      hcourse.confined.trans (Weaving.confined_checkedSetter hunmarked hchecked), ?_,
      .inr ⟨front, v, rest, cause, hlisted, rfl, rfl⟩⟩
    -- the setter that could not be woven is not marked, and the ones in front of it are
    refine List.nodup_append'.mpr ⟨hcourse.nodup, ?_, fun i hi hset => ?_⟩
    · cases v.2.property.setter with
      | none => exact List.nodup_nil
      | some i => exact List.nodup_singleton i
    · rw [Weaving.isMarked_eq, Option.mem_toList.mp hset, Option.any_some,
        hcourse.isWoven_of_mem_edited hi] at hunmarked
      cases hunmarked

end SetterLoom
