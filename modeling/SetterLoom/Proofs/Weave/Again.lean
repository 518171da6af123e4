import Mathlib.Logic.Relation
import SetterLoom.Proofs.Weave.Added

/-!
# Weaving again

A pass marks each setter that it weaves, and no edit takes a mark away or marks another method. So of
the setters that a pass comes to it weaves each one once that is not marked before, and every later pass
leaves the module as it is if it comes to no other setters.

* `property_cases`: what a pass does with one property.
* `Course`: the passes that succeed, with the setters that they weave.
* `weave_once`: later passes change nothing, and in one pass each setter is woven at most once.
-/

namespace SetterLoom
set_option autoImplicit false

/-- The properties of a pass, each with its type, in the order in which the pass comes to them. -/
def TypePlan.listed (plans : List TypePlan) : List (TypePlan × PropertyPlan) :=
  plans.flatMap fun t => t.properties.map (t, ·)

theorem TypePlan.length_listed_cons (plan : TypePlan) (rest : List TypePlan) :
    (TypePlan.listed (plan :: rest)).length
      = plan.properties.length + (TypePlan.listed rest).length := by
  rw [listed, List.flatMap_cons, List.length_append, List.length_map]
  rfl

namespace PropertyPlan

theorem mem_of_mem_distinctFrom {listed : List String} {p : Property} {ps : List Property}
    (h : p ∈ distinctFrom listed ps) : p ∈ ps := by
  induction ps generalizing listed with
  | nil => cases h
  | cons q rest ih =>
    rw [distinctFrom] at h
    split at h
    · exact List.mem_cons_of_mem _ (ih h)
    · rcases List.mem_cons.mp h with rfl | h
      · exact List.mem_cons_self
      · exact List.mem_cons_of_mem _ (ih h)

end PropertyPlan

namespace Module

variable {m m' m'' : Module} {i j : MethodId} {d : Method}

/-- The method carries the mark. -/
def isWoven (m : Module) (i : MethodId) : Bool :=
  (m.method? i).any (·.hasAttribute Surface.woven)

theorem isWoven_eq (hd : m.method? i = some d) :
    m.isWoven i = d.hasAttribute Surface.woven := by
  rw [isWoven, hd, Option.any_some]

theorem isWoven_addAttribute (hd : m.method? i = some d) :
    (m.addAttribute i Surface.woven).isWoven i = true := by
  unfold isWoven addAttribute
  rw [method?_updateMethod, if_pos rfl, hd]
  simp [Method.hasAttribute]

theorem method?_addAttribute_ne (name : String) (h : i ≠ j) :
    (m.addAttribute i name).method? j = m.method? j := by
  rw [addAttribute, method?_updateMethod, if_neg h]

theorem isWoven_addAttribute_mono (name : String) (h : m.isWoven j = true) :
    (m.addAttribute i name).isWoven j = true := by
  obtain ⟨d, hd⟩ : ∃ d, m.method? j = some d := by
    cases hd : m.method? j with
    | none =>
      rw [isWoven, hd] at h
      cases h
    | some d => exact ⟨d, rfl⟩
  rw [isWoven_eq hd] at h
  unfold isWoven addAttribute
  rw [method?_updateMethod]
  split
  · rw [hd]
    simp only [Method.hasAttribute, List.contains_iff_mem, Option.map_some, Option.any_some,
      List.mem_append] at h ⊢
    exact .inl h
  · rw [hd]
    exact h

end Module

/-- The workpiece with one more method marked. -/
def Workpiece.mark (w : Workpiece) (i : MethodId) : Workpiece :=
  { w with module := w.module.addAttribute i Surface.woven }

namespace Weaving

variable {options : Options} {resolver : Resolver} {type : TypePlan} {plan : PropertyPlan}
  {typeName : String} {s s' : WeaveSummary} {w w' : Workpiece} {i j : MethodId} {d : Method}

theorem isMarked_eq (m : Module) (p : Property) : isMarked m p = p.setter.any m.isWoven := by
  unfold isMarked Module.isWoven
  cases p.setter <;> rfl

/-! ## One property -/

theorem method?_touched {m m' : Module} (h : Touched type plan m m') (hd : m.method? j = some d) :
    ∃ body, m'.method? j = some { d with body } ∧ (plan.property.setter ≠ some j → body = d.body) := by
  rcases h with rfl | ⟨i, d', body, result, added, hset, hd', -, hresult, -, -, -, hgains⟩
  · exact ⟨d.body, hd, fun _ => rfl⟩
  · by_cases hij : j = i
    · subst hij
      obtain rfl := Option.some.inj (hd.symm.trans hd')
      exact ⟨some result, hresult, fun hne => absurd hset hne⟩
    · exact ⟨d.body, hgains.methods j d hd hij, fun _ => rfl⟩

theorem isWoven_touched {m m' : Module} (h : Touched type plan m m') (hwoven : m.isWoven j = true) :
    m'.isWoven j = true := by
  cases hd : m.method? j with
  | none =>
    rw [Module.isWoven, hd] at hwoven
    cases hwoven
  | some d =>
    obtain ⟨body, hd', -⟩ := method?_touched h hd
    rw [Module.isWoven_eq hd] at hwoven
    rw [Module.isWoven_eq hd']
    exact hwoven

theorem exists_setter_run {result : Except Error WovenSetter}
    (h : (checkedSetter options resolver type plan).run.run w = (result, w')) :
    ∃ result', (setter options resolver type plan).run.run w = (result', w') := by
  have hstate : ((setter options resolver type plan).run.run w).2 = w' := by
    rw [← checkedSetter_state, h]
  exact ⟨_, Prod.ext rfl hstate⟩

theorem touched_checkedSetter {result : Except Error WovenSetter}
    (h : (checkedSetter options resolver type plan).run.run w = (result, w')) :
    Touched type plan w.module w'.module := by
  obtain ⟨result', hsetter⟩ := exists_setter_run h
  exact touched_setter hsetter

theorem setter_of_checkedSetter {woven : WovenSetter}
    (h : (checkedSetter options resolver type plan).run.run w = (.ok woven, w')) :
    ∃ i d, plan.property.setter = some i ∧ w.module.method? i = some d := by
  unfold checkedSetter at h
  obtain ⟨_, w₁, hsetter, -⟩ := Steps.bind_ok.mp h
  unfold setter at hsetter
  cases hset : plan.property.setter with
  | none =>
    rw [hset] at hsetter
    exact absurd hsetter Steps.throw_not_ok
  | some i =>
    rw [hset] at hsetter
    obtain ⟨_, w₀, hget, hrest⟩ := Steps.bind_ok.mp hsetter
    obtain ⟨rfl, rfl⟩ := Steps.get_ok.mp hget
    cases hd : w₀.module.method? i with
    | none =>
      simp only [hd, Option.bind_none] at hrest
      exact absurd hrest Steps.throw_not_ok
    | some d => exact ⟨i, d, rfl, hd⟩

/-- A marked property is skipped; of another one the setter is woven, which may fail, and marked. -/
theorem property_cases {result : Except Error WeaveSummary}
    (h : (property options resolver typeName type s plan).run.run w = (result, w')) :
    (isMarked w.module plan.property = true ∧ result = .ok s.countSkipped ∧ w' = w)
      ∨ isMarked w.module plan.property = false
        ∧ ((∃ e, (checkedSetter options resolver type plan).run.run w = (.error e, w')
            ∧ result = .error (.weave typeName plan.property.name e))
          ∨ ∃ woven w₁ i, (checkedSetter options resolver type plan).run.run w = (.ok woven, w₁)
            ∧ plan.property.setter = some i ∧ result = .ok (s.countWoven woven)
            ∧ w' = Workpiece.mark w₁ i) := by
  have hget : (get : Weaving Workpiece).run.run w = (.ok w, w) := rfl
  unfold property at h
  rw [Steps.bind_run, hget] at h
  dsimp only at h
  by_cases hmarked : isMarked w.module plan.property = true
  · rw [if_pos hmarked] at h
    obtain ⟨rfl, rfl⟩ := Prod.mk.inj h
    exact .inl ⟨hmarked, rfl, rfl⟩
  · rw [if_neg hmarked, Steps.bind_run, Steps.tryCatch_run] at h
    refine .inr ⟨by simpa using hmarked, ?_⟩
    cases hchecked : (checkedSetter options resolver type plan).run.run w with
    | mk outcome w₁ =>
      rw [hchecked] at h
      cases outcome with
      | error e =>
        obtain ⟨rfl, rfl⟩ := Prod.mk.inj h
        exact .inl ⟨e, rfl, rfl⟩
      | ok woven =>
        obtain ⟨i, d, hset, -⟩ := setter_of_checkedSetter hchecked
        unfold mark at h
        rw [hset] at h
        obtain ⟨rfl, rfl⟩ := Prod.mk.inj h
        exact .inr ⟨woven, w₁, i, rfl, hset, rfl, rfl⟩

/-- No run of a pass takes a mark away. -/
def Marks (w w' : Workpiece) : Prop :=
  ∀ i, w.module.isWoven i = true → w'.module.isWoven i = true

theorem marks_property (options : Options) (resolver : Resolver) (typeName : String)
    (type : TypePlan) (s : WeaveSummary) (plan : PropertyPlan) :
    Steps.Within Marks (property options resolver typeName type s plan) := by
  intro w i hwoven
  rcases property_cases (Prod.eta ((property options resolver typeName type s plan).run.run w)).symm
    with ⟨-, -, hsame⟩ | ⟨-, ⟨e, hchecked, -⟩ | ⟨woven, w₁, j, hchecked, -, -, hmark⟩⟩
  · rw [hsame]
    exact hwoven
  · exact isWoven_touched (touched_checkedSetter hchecked) hwoven
  · rw [hmark]
    exact Module.isWoven_addAttribute_mono _
      (isWoven_touched (touched_checkedSetter hchecked) hwoven)

theorem marks_all (options : Options) (resolver : Resolver) (plans : List TypePlan) :
    Steps.Within Marks (all options resolver plans) := by
  have htrans : ∀ {w w' w'' : Workpiece}, Marks w w' → Marks w' w'' → Marks w w'' :=
    fun h h' i hi => h' i (h i hi)
  refine Steps.within_foldlM (R := Marks) (fun _ _ => id) htrans (fun s plan => ?_) plans ({} : WeaveSummary)
  unfold Weaving.type
  exact Steps.within_bind (R := Marks) htrans (fun _ _ => id) fun w =>
    Steps.within_foldlM (R := Marks) (fun _ _ => id) htrans
      (fun s p => marks_property options resolver _ plan s p) _ _

/-! ## A pass that succeeds -/

/-- A pass over a list of properties that succeeds, with the setters that it weaves in their order. -/
inductive Course (options : Options) (resolver : Resolver) :
    Workpiece → List (TypePlan × PropertyPlan) → List MethodId → Workpiece → Prop
  | done (w : Workpiece) : Course options resolver w [] [] w
  | skipped {w w' : Workpiece} {v : TypePlan × PropertyPlan} {rest : List (TypePlan × PropertyPlan)}
      {edited : List MethodId} (marked : isMarked w.module v.2.property = true)
      (more : Course options resolver w rest edited w') :
      Course options resolver w (v :: rest) edited w'
  | woven {w w₁ w' : Workpiece} {v : TypePlan × PropertyPlan}
      {rest : List (TypePlan × PropertyPlan)} {edited : List MethodId} {i : MethodId}
      {woven : WovenSetter} (unmarked : isMarked w.module v.2.property = false) (setter : v.2.property.setter = some i)
      (checked : (checkedSetter options resolver v.1 v.2).run.run w = (.ok woven, w₁))
      (more : Course options resolver (Workpiece.mark w₁ i) rest edited w') :
      Course options resolver w (v :: rest) (i :: edited) w'

namespace Course

variable {visits rest : List (TypePlan × PropertyPlan)} {edited edited' : List MethodId}
  {w'' : Workpiece} {v : TypePlan × PropertyPlan}

theorem append (h : Course options resolver w visits edited w')
    (h' : Course options resolver w' rest edited' w'') :
    Course options resolver w (visits ++ rest) (edited ++ edited') w'' := by
  induction h with
  | done => exact h'
  | skipped hmarked _ ih => exact .skipped hmarked (ih h')
  | woven hunmarked hset hchecked _ ih => exact .woven hunmarked hset hchecked (ih h')

theorem marks (h : Course options resolver w visits edited w') : Marks w w' := by
  induction h with
  | done => exact fun _ hi => hi
  | skipped _ _ ih => exact ih
  | woven _ _ hchecked _ ih =>
    exact fun i hi => ih i (Module.isWoven_addAttribute_mono _
      (isWoven_touched (touched_checkedSetter hchecked) hi))

theorem mark_checked {w₁ : Workpiece} {woven : WovenSetter} (hset : plan.property.setter = some i)
    (hchecked : (checkedSetter options resolver type plan).run.run w = (.ok woven, w₁)) :
    ∃ d, w₁.module.method? i = some d
      ∧ (Workpiece.mark w₁ i).module.method? i
        = some { d with attributes := d.attributes ++ [Surface.woven] }
      ∧ (Workpiece.mark w₁ i).module.isWoven i = true := by
  obtain ⟨j, d, hset', hd⟩ := setter_of_checkedSetter hchecked
  obtain rfl := Option.some.inj (hset.symm.trans hset')
  obtain ⟨body, hd', -⟩ := method?_touched (touched_checkedSetter hchecked) hd
  refine ⟨_, hd', ?_, Module.isWoven_addAttribute hd'⟩
  show (w₁.module.updateMethod i _).method? i = _
  rw [Module.method?_updateMethod, if_pos rfl, hd', Option.map_some]

theorem isWoven (h : Course options resolver w visits edited w') (hv : v ∈ visits)
    (hset : v.2.property.setter = some i) : w'.module.isWoven i = true := by
  induction h with
  | done => cases hv
  | skipped hmarked hmore ih =>
    rcases List.mem_cons.mp hv with rfl | hv
    · rw [isMarked_eq, hset, Option.any_some] at hmarked
      exact hmore.marks i hmarked
    · exact ih hv
  | woven _ hset' hchecked hmore ih =>
    rcases List.mem_cons.mp hv with rfl | hv
    · obtain rfl := Option.some.inj (hset.symm.trans hset')
      obtain ⟨d, -, -, hwoven⟩ := mark_checked hset hchecked
      exact hmore.marks i hwoven
    · exact ih hv

theorem exists_setter (h : Course options resolver w visits edited w') (hv : v ∈ visits) :
    ∃ i, v.2.property.setter = some i := by
  induction h with
  | done => cases hv
  | skipped hmarked _ ih =>
    rcases List.mem_cons.mp hv with rfl | hv
    · rw [isMarked_eq] at hmarked
      cases hset : v.2.property.setter with
      | none =>
        rw [hset] at hmarked
        cases hmarked
      | some i => exact ⟨i, rfl⟩
    · exact ih hv
  | woven _ hset _ _ ih =>
    rcases List.mem_cons.mp hv with rfl | hv
    · exact ⟨_, hset⟩
    · exact ih hv

theorem unmarked (h : Course options resolver w visits edited w') (hi : i ∈ edited) :
    w.module.isWoven i = false := by
  induction h with
  | done => cases hi
  | skipped _ _ ih => exact ih hi
  | @woven _ w₁ _ _ _ _ k _ hunmarked hset hchecked _ ih =>
    rcases List.mem_cons.mp hi with rfl | hi
    · rwa [isMarked_eq, hset, Option.any_some] at hunmarked
    -- a setter that was marked before the first edit is marked behind
    -- it, and so would not be edited later
    · by_contra hwoven
      rw [Bool.not_eq_false] at hwoven
      have hmarked : (Workpiece.mark w₁ k).module.isWoven i = true :=
        Module.isWoven_addAttribute_mono _ (isWoven_touched (touched_checkedSetter hchecked) hwoven)
      exact absurd ((ih hi).symm.trans hmarked) Bool.false_ne_true

theorem nodup (h : Course options resolver w visits edited w') : edited.Nodup := by
  induction h with
  | done => exact List.nodup_nil
  | skipped _ _ ih => exact ih
  | woven _ hset hchecked hmore ih =>
    refine List.nodup_cons.mpr ⟨fun hmem => ?_, ih⟩
    obtain ⟨d, -, -, hwoven⟩ := mark_checked hset hchecked
    exact absurd ((hmore.unmarked hmem).symm.trans hwoven) Bool.false_ne_true

theorem method?_mark_ne {w₁ : Workpiece} {woven : WovenSetter}
    (hset : plan.property.setter = some i)
    (hchecked : (checkedSetter options resolver type plan).run.run w = (.ok woven, w₁))
    (hd : w.module.method? j = some d) (hne : i ≠ j) :
    (Workpiece.mark w₁ i).module.method? j = some d := by
  obtain ⟨body, hd', hsame⟩ := method?_touched (touched_checkedSetter hchecked) hd
  obtain rfl := hsame fun h => hne (Option.some.inj (hset.symm.trans h))
  exact (Module.method?_addAttribute_ne _ hne).trans hd'

theorem method?_of_notMem (h : Course options resolver w visits edited w') (hi : i ∉ edited)
    (hd : w.module.method? i = some d) : w'.module.method? i = some d := by
  induction h with
  | done => exact hd
  | skipped _ _ ih => exact ih hi hd
  | woven _ hset hchecked _ ih =>
    obtain ⟨hne, hi⟩ := not_or.mp (mt List.mem_cons.mpr hi)
    exact ih hi (method?_mark_ne hset hchecked hd (Ne.symm hne))

/-- The woven setters are those of the listed properties that were not marked before. -/
theorem mem_edited (h : Course options resolver w visits edited w')
    (hd : w.module.method? i = some d) :
    i ∈ edited ↔ (∃ v ∈ visits, v.2.property.setter = some i)
      ∧ d.hasAttribute Surface.woven = false := by
  refine ⟨fun hi => ⟨?_, ?_⟩, ?_⟩
  · clear hd
    induction h with
    | done => cases hi
    | skipped _ _ ih =>
      obtain ⟨v, hv, hset⟩ := ih hi
      exact ⟨v, List.mem_cons_of_mem _ hv, hset⟩
    | woven _ hset _ _ ih =>
      rcases List.mem_cons.mp hi with rfl | hi
      · exact ⟨_, List.mem_cons_self, hset⟩
      · obtain ⟨v, hv, hset'⟩ := ih hi
        exact ⟨v, List.mem_cons_of_mem _ hv, hset'⟩
  · have hunmarked := h.unmarked hi
    rwa [Module.isWoven_eq hd] at hunmarked
  -- a listed setter that was not edited is as it was, but is marked in the end
  · rintro ⟨⟨v, hv, hset⟩, hunmarked⟩
    by_contra hi
    have hwoven := h.isWoven hv hset
    rw [Module.isWoven_eq (h.method?_of_notMem hi hd)] at hwoven
    exact absurd (hunmarked.symm.trans hwoven) Bool.false_ne_true

/-- A woven setter is edited once, as it was before the pass, and marked; nothing else happens to it. -/
theorem edited_once (h : Course options resolver w visits edited w') (hi : i ∈ edited)
    (hd : w.module.method? i = some d) :
    ∃ v ∈ visits, ∃ w₁ w₂ woven result, v.2.property.setter = some i
      ∧ w₁.module.method? i = some d
      ∧ (checkedSetter options resolver v.1 v.2).run.run w₁ = (.ok woven, w₂)
      ∧ w₂.module.method? i = some result
      ∧ w'.module.method? i
        = some { result with attributes := result.attributes ++ [Surface.woven] } := by
  induction h with
  | done => cases hi
  | skipped _ _ ih =>
    obtain ⟨v, hv, hedit⟩ := ih hi hd
    exact ⟨v, List.mem_cons_of_mem _ hv, hedit⟩
  -- the setter is edited here, or later and then not here
  | @woven w w₁ w' v rest edited k woven _ hset hchecked hmore ih =>
    by_cases hki : k = i
    · subst hki
      obtain ⟨result, hresult, hmark, hwoven⟩ := mark_checked hset hchecked
      have hrest : k ∉ edited := fun hmem =>
        absurd ((hmore.unmarked hmem).symm.trans hwoven) Bool.false_ne_true
      exact ⟨v, List.mem_cons_self, w, w₁, woven, result, hset, hd, hchecked, hresult,
        hmore.method?_of_notMem hrest hmark⟩
    · have hrest : i ∈ edited := (List.mem_cons.mp hi).resolve_left (Ne.symm hki)
      obtain ⟨u, hu, hedit⟩ := ih hrest (method?_mark_ne hset hchecked hd hki)
      exact ⟨u, List.mem_cons_of_mem _ hu, hedit⟩

end Course

/-- A fold over the properties of a type is a course, and the summary counts it. -/
theorem course_of_properties {properties : List PropertyPlan}
    (h : (properties.foldlM (property options resolver typeName type) s).run.run w = (.ok s', w')) :
    ∃ edited, Course options resolver w (properties.map (type, ·)) edited w'
      ∧ s'.types = s.types ∧ s'.woven = s.woven + edited.length
      ∧ s'.woven + s'.skipped = s.woven + s.skipped + properties.length := by
  induction properties generalizing s w with
  | nil =>
    obtain ⟨rfl, rfl⟩ := Steps.pure_ok.mp h
    exact ⟨[], .done w', rfl, rfl, rfl⟩
  | cons plan rest ih =>
    rw [List.foldlM_cons] at h
    obtain ⟨s₁, w₁, hfirst, hrest⟩ := Steps.bind_ok.mp h
    obtain ⟨edited, hcourse, htypes, hwoven, htotal⟩ := ih hrest
    -- the first property is skipped, fails or is woven, and the counts of the rest go on from there
    rcases property_cases hfirst with ⟨hmarked, hresult, hsame⟩ |
      ⟨hunmarked, ⟨e, -, hresult⟩ | ⟨woven, w₂, i, hchecked, hset, hresult, hmark⟩⟩
    · obtain rfl := Except.ok.inj hresult
      rw [hsame] at hcourse
      refine ⟨edited, .skipped hmarked hcourse, htypes, hwoven, ?_⟩
      rw [htotal, List.length_cons]
      simp only [WeaveSummary.countSkipped]
      omega
    · cases hresult
    · obtain rfl := Except.ok.inj hresult
      rw [hmark] at hcourse
      refine ⟨i :: edited, .woven hunmarked hset hchecked hcourse, htypes, ?_, ?_⟩
      · rw [hwoven, List.length_cons]
        simp only [WeaveSummary.countWoven]
        omega
      · rw [htotal, List.length_cons]
        simp only [WeaveSummary.countWoven]
        omega

theorem type_run (options : Options) (resolver : Resolver) (s : WeaveSummary) (plan : TypePlan)
    (w : Workpiece) :
    (Weaving.type options resolver s plan).run.run w
      = (plan.properties.foldlM
          (property options resolver ((w.module.typeName? plan.type).getD "") plan)
          s.countType).run.run w := by
  have hget : (get : Weaving Workpiece).run.run w = (.ok w, w) := rfl
  unfold Weaving.type
  rw [Steps.bind_run, hget]

/-- A pass that succeeds is a course, and the summary counts it. -/
theorem course_of_plans {plans : List TypePlan}
    (h : (plans.foldlM (Weaving.type options resolver) s).run.run w = (.ok s', w')) :
    ∃ edited, Course options resolver w (TypePlan.listed plans) edited w'
      ∧ s'.woven = s.woven + edited.length
      ∧ s'.woven + s'.skipped = s.woven + s.skipped + (TypePlan.listed plans).length := by
  induction plans generalizing s w with
  | nil =>
    obtain ⟨rfl, rfl⟩ := Steps.pure_ok.mp h
    exact ⟨[], .done w', rfl, rfl⟩
  | cons plan rest ih =>
    rw [List.foldlM_cons] at h
    obtain ⟨s₁, w₁, hfirst, hrest⟩ := Steps.bind_ok.mp h
    rw [type_run] at hfirst
    obtain ⟨edited, hcourse, -, hwoven, htotal⟩ := course_of_properties hfirst
    obtain ⟨edited', hcourse', hwoven', htotal'⟩ := ih hrest
    refine ⟨edited ++ edited', hcourse.append hcourse', ?_, ?_⟩
    · rw [hwoven', hwoven, List.length_append]
      simp only [WeaveSummary.countType]
      omega
    · rw [htotal', htotal, TypePlan.length_listed_cons]
      simp only [WeaveSummary.countType]
      omega

/-! ## A pass over marked setters -/

theorem properties_skipped {properties : List PropertyPlan}
    (h : ∀ p ∈ properties, isMarked w.module p.property = true) :
    (properties.foldlM (property options resolver typeName type) s).run.run w
      = (.ok { s with skipped := s.skipped + properties.length }, w) := by
  induction properties generalizing s with
  | nil => rfl
  | cons plan rest ih =>
    have hget : (get : Weaving Workpiece).run.run w = (.ok w, w) := rfl
    have hmarked := h plan List.mem_cons_self
    have hfirst : (property options resolver typeName type s plan).run.run w
        = (.ok s.countSkipped, w) := by
      unfold property
      rw [Steps.bind_run, hget]
      dsimp only
      rw [if_pos hmarked]
      rfl
    rw [List.foldlM_cons, Steps.bind_run, hfirst]
    dsimp only
    rw [ih fun p hp => h p (List.mem_cons_of_mem _ hp), List.length_cons]
    simp only [WeaveSummary.countSkipped, Nat.add_assoc, Nat.add_comm 1]

theorem plans_skipped {plans : List TypePlan}
    (h : ∀ v ∈ TypePlan.listed plans, isMarked w.module v.2.property = true) :
    (plans.foldlM (Weaving.type options resolver) s).run.run w
      = (.ok { s with
          types := s.types + plans.length
          skipped := s.skipped + (TypePlan.listed plans).length }, w) := by
  induction plans generalizing s with
  | nil => rfl
  | cons plan rest ih =>
    have hfirst : ∀ p ∈ plan.properties, isMarked w.module p.property = true := fun p hp =>
      h (plan, p) (List.mem_flatMap.mpr ⟨plan, List.mem_cons_self, List.mem_map_of_mem hp⟩)
    have hrest : ∀ v ∈ TypePlan.listed rest, isMarked w.module v.2.property = true := fun v hv => by
      obtain ⟨t, ht, hv⟩ := List.mem_flatMap.mp hv
      exact h v (List.mem_flatMap.mpr ⟨t, List.mem_cons_of_mem _ ht, hv⟩)
    rw [List.foldlM_cons, Steps.bind_run, type_run, properties_skipped hfirst]
    dsimp only
    rw [ih hrest, TypePlan.length_listed_cons, List.length_cons]
    simp only [WeaveSummary.countType, Nat.add_assoc, Nat.add_comm 1]

end Weaving

/-- A pass over a module is a run over the plans that begins with what was asked before. -/
theorem Weaver.exists_run {w w' : Weaver} {plans : List TypePlan} {m m' : Module}
    {result : Except Error WeaveSummary} (h : w.weave plans m = (result, w', m')) :
    ∃ piece, (Weaving.all w.options w.resolver plans).run.run ⟨m, w.capabilities⟩ = (result, piece)
      ∧ piece.module = m' := by
  unfold weave at h
  obtain ⟨hresult, hrest⟩ := Prod.mk.inj h
  exact ⟨_, Prod.ext hresult rfl, (Prod.mk.inj hrest).2⟩

/-- What a module may become by any number of passes, whether or not they succeed. -/
def Module.Passed : Module → Module → Prop :=
  Relation.ReflTransGen fun m m' => ∃ (w : Weaver) (plans : List TypePlan), m' = (w.weave plans m).2.2

theorem Module.Passed.isWoven {m m' : Module} {i : MethodId} (h : m.Passed m')
    (hwoven : m.isWoven i = true) : m'.isWoven i = true := by
  induction h with
  | refl => exact hwoven
  | tail _ hpass ih =>
    obtain ⟨w, plans, rfl⟩ := hpass
    exact Weaving.marks_all w.options w.resolver plans ⟨_, w.capabilities⟩ i ih

/-- After a pass that succeeds, every pass at any later time that comes to no other setters succeeds,
skips all its properties and leaves the module as it is. In the pass itself each setter that was not
marked before is woven exactly once, as it was before the pass, however often its properties are listed;
no other method of the module changes. -/
theorem Weaver.weave_once {w w' : Weaver} {plans : List TypePlan} {m m' : Module} {s : WeaveSummary}
    (hrun : w.weave plans m = (.ok s, w', m')) :
    (∀ (later : Weaver) (more : List TypePlan) (m'' : Module), m'.Passed m'' →
      (∀ v ∈ TypePlan.listed more, ∃ u ∈ TypePlan.listed plans,
        u.2.property.setter = v.2.property.setter) →
      later.weave more m''
        = (.ok { types := more.length, skipped := (TypePlan.listed more).length }, later, m''))
    ∧ ∃ edited : List MethodId, edited.Nodup ∧ s.woven = edited.length
      ∧ s.woven + s.skipped = (TypePlan.listed plans).length
      ∧ ∀ i d, m.method? i = some d →
        (i ∈ edited ↔ (∃ v ∈ TypePlan.listed plans, v.2.property.setter = some i)
          ∧ d.hasAttribute Surface.woven = false)
        ∧ (i ∉ edited → m'.method? i = some d)
        ∧ (i ∈ edited → ∃ v ∈ TypePlan.listed plans, ∃ w₁ w₂ woven result,
          v.2.property.setter = some i ∧ w₁.module.method? i = some d
            ∧ (Weaving.checkedSetter w.options w.resolver v.1 v.2).run.run w₁ = (.ok woven, w₂)
            ∧ w₂.module.method? i = some result
            ∧ m'.method? i
              = some { result with attributes := result.attributes ++ [Surface.woven] }) := by
  obtain ⟨piece, hpiece, rfl⟩ := exists_run hrun
  obtain ⟨edited, hcourse, hwoven, htotal⟩ := Weaving.course_of_plans hpiece
  refine ⟨fun later more m'' hpassed hlisted => ?_, edited, hcourse.nodup, ?_, ?_, fun i d hd =>
    ⟨hcourse.mem_edited hd, fun hi => hcourse.method?_of_notMem hi hd,
      fun hi => hcourse.edited_once hi hd⟩⟩
  -- every property of the later pass has a setter that this pass has marked
  · have hmarked : ∀ v ∈ TypePlan.listed more,
        Weaving.isMarked (⟨m'', later.capabilities⟩ : Workpiece).module v.2.property = true := by
      intro v hv
      obtain ⟨u, hu, hsame⟩ := hlisted v hv
      obtain ⟨i, hset⟩ := hcourse.exists_setter hu
      rw [Weaving.isMarked_eq, ← hsame, hset, Option.any_some]
      exact hpassed.isWoven (hcourse.isWoven hu hset)
    unfold weave Weaving.all
    rw [Weaving.plans_skipped hmarked]
    simp only [Nat.zero_add]
  · simpa using hwoven
  · simpa using htotal

namespace Weaving.Chain

/-- The property of a node, listed a number of times. -/
def repeated (count : Nat) : TypePlan :=
  { Chain.type with properties := List.replicate count Chain.property }

/-- A pass in which the property is listed twice. -/
def pass : Except Error WeaveSummary × Weaver × Module :=
  ({ resolver := Chain.resolver } : Weaver).weave [repeated 2] Chain.module

theorem pass_eq : pass
    = (.ok { types := 1, woven := 1, skipped := 1, notifications := 2, handlers := 1 }, pass.2.1, pass.2.2) := by
  have hresult : pass.1
      = .ok { types := 1, woven := 1, skipped := 1, notifications := 2, handlers := 1 } := by
    decide +kernel
  rw [← hresult]

/-- A pass with another configuration that resolves nothing the first one resolved. -/
def later : Weaver :=
  { options := .notificationsOnly, resolver := .refusing ["object_equals", "handler_constructor"] }

end Weaving.Chain

open Weaving.Chain in
/-- The setter of the property that is listed twice is woven once, and a pass in which it is listed three
times skips it three times. -/
theorem Weaver.weave_once_chain :
    pass.1 = .ok { types := 1, woven := 1, skipped := 1, notifications := 2, handlers := 1 }
      ∧ later.weave [repeated 1, repeated 2] pass.2.2
        = (.ok { types := 2, skipped := 3 }, later, pass.2.2)
      ∧ ∃ edited : List MethodId, edited.Nodup ∧ edited.length = 1 ∧ ⟨1⟩ ∈ edited := by
  obtain ⟨hlater, edited, hnodup, hwoven, -, hedited⟩ := Weaver.weave_once pass_eq
  refine ⟨congrArg Prod.fst pass_eq, hlater later [repeated 1, repeated 2] pass.2.2 .refl ?_, edited, hnodup,
    hwoven.symm, ?_⟩
  · decide +kernel
  · obtain ⟨d, hd⟩ : ∃ d, Chain.module.method? ⟨1⟩ = some d := ⟨_, rfl⟩
    refine (hedited ⟨1⟩ d hd).1.mpr ⟨by decide +kernel, ?_⟩
    obtain rfl := Option.some.inj hd
    decide +kernel

end SetterLoom
