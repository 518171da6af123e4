import SetterLoom.Proofs.Weave.Order

/-!
# Plans in another order

Two passes over the same plans in different orders weave the same setters, and each setter is woven as it
would have been woven first. What is left to compare is the names: each pass draws the same blocks of them,
from other places of the supply.

* `Stop.beside`: a property in both passes.
* `matches_of_traces`: all of them.
* `Weaver.weave_reordered`: the order of a pass does not matter.
-/

namespace SetterLoom
set_option autoImplicit false

namespace Weaving

variable {options : Options} {resolver : Resolver} {m : Module} {v : TypePlan × PropertyPlan}
  {vs : List (TypePlan × PropertyPlan)} {w u : Workpiece} {woven : WovenSetter}

/-! ## Two passes -/

variable {vs' : List (TypePlan × PropertyPlan)} {v' : TypePlan × PropertyPlan} {n n' : Module}
  {labels' methods' : Equiv.Perm Nat}

/-- The names that two passes draw for a property are those of one rearrangement. -/
structure Rearranges (options : Options) (resolver : Resolver) (m : Module)
    (vs vs' : List (TypePlan × PropertyPlan)) (labels' methods' : Equiv.Perm Nat) : Prop where
  labels : ∀ b ∈ vs.map bareVisit, ∀ k, k < labels options resolver m b →
    labels' (m.serial + startOf (labels options resolver m) b (vs.map bareVisit) + k)
      = m.serial + startOf (labels options resolver m) b (vs'.map bareVisit) + k
  methods : ∀ b ∈ vs.map bareVisit, ∀ k, k < handlers options resolver m b →
    methods' (m.methods.size + startOf (handlers options resolver m) b (vs.map bareVisit) + k)
      = m.methods.size + startOf (handlers options resolver m) b (vs'.map bareVisit) + k
  oldLabels : ∀ k, k < m.serial → labels' k = k
  oldMethods : ∀ k, k < m.methods.size → methods' k = k

/-- A property that both passes wove has the same setter and the same handler behind both, but for the
names. -/
theorem Stop.beside (hcoherent : m.Coherent) (hsteady : resolver.Steady m) (hground : Grounded m v.1 v.2)
    (hrearranges : Rearranges options resolver m vs vs' labels' methods') (hv : v ∈ vs)
    (hsame : bareVisit v' = bareVisit v) {woven' : WovenSetter} {w' u' : Workpiece}
    (h : Stop options resolver m vs ⟨m, {}⟩ n v woven w u)
    (h' : Stop options resolver m vs' ⟨m, {}⟩ n' v' woven' w' u') :
    woven'.handler = woven.handler.map (Renaming.rearranged labels' methods').method
      ∧ (∀ i, v.2.property.setter = some i →
        n'.method? i = (n.method? i).map (Renaming.rearranged labels' methods').entry)
      ∧ ∀ i, woven.handler = some i → ∃ d token, n.method? i = some d
        ∧ n'.method? ((Renaming.rearranged labels' methods').method i)
          = some { (Renaming.rearranged labels' methods').entry d with token } := by
  obtain ⟨type', plan'⟩ := v'
  obtain ⟨hlike, rfl⟩ : type'.bare = v.1.bare ∧ plan' = v.2 := Prod.mk.inj hsame
  have hmem : bareVisit v ∈ vs.map bareVisit := List.mem_map_of_mem hv
  have hkeeps : (Renaming.rearranged labels' methods').Keeps m.serial m.methods.size :=
    Renaming.keeps_rearranged hrearranges.oldLabels hrearranges.oldMethods
  have hworked := worked_checkedSetter hcoherent h.ready h.run
  -- both setters are woven alike under the renaming that takes the labels and
  -- methods of the one order to those of the other
  have hbeside := checkedSetter_beside hcoherent hground hsteady hlike h.ready h'.ready hkeeps
    (Renaming.bijective_rearranged labels' methods').1.1
    (fun last hlast k hk => by
      have hdrawn := h.drawn
      have hle := hlast woven u h.run
      have hwidth : k < labels options resolver m v := by omega
      refine congrArg Label.drawn ?_
      rw [h.serial, h'.serial, hsame]
      exact hrearranges.labels _ hmem k hwidth)
    (fun hsome => by
      have hdeclared := h.declared
      have hsize := hworked.size
      obtain ⟨i, hi⟩ := Option.isSome_iff_exists.mp (hsome woven u h.run)
      rw [hi] at hsize
      have hwidth : 0 < handlers options resolver m v := by
        simp only [Option.toList_some, List.length_singleton] at hsize
        omega
      refine congrArg MethodId.mk ?_
      rw [h.size, h'.size, hsame]
      exact hrearranges.methods _ hmem 0 hwidth)
  rcases hbeside with ⟨e, -, x, -, hrun, -⟩ |
    ⟨woven₁, woven₁', u₁, u₁', k, hrun, hrun', -, hhandler, -, -, hset, hentry⟩
  · cases (Prod.mk.inj (h.run.symm.trans hrun)).1
  obtain ⟨hwoven, rfl⟩ := Prod.mk.inj (h.run.symm.trans hrun)
  obtain rfl := Except.ok.inj hwoven
  obtain ⟨hwoven', rfl⟩ := Prod.mk.inj (h'.run.symm.trans hrun')
  obtain rfl := Except.ok.inj hwoven'
  refine ⟨hhandler, fun i hi => ?_, fun i hi => ?_⟩
  · rw [h'.setter i hi, h.setter i hi, hset i hi, Option.map_map, Option.map_map]
    rfl
  · obtain ⟨d, token, hd, hd'⟩ := hentry i hi
    refine ⟨d, token, ?_, ?_⟩
    · rw [h.handler i hi, hd]
    · rw [h'.handler _ (by rw [hhandler, hi, Option.map_some]), hd']

end Weaving

/-! ## Two orders -/

/-- The same plans, in another order of the types and of the properties of each type. -/
def TypePlan.Reordered (plans plans' : List TypePlan) : Prop :=
  ∃ between, plans.Perm between
    ∧ List.Forall₂ (fun type type' => type'.bare = type.bare ∧ type.properties.Perm type'.properties)
      between plans'

namespace TypePlan.Reordered

variable {plans plans' : List TypePlan}

theorem length_eq (h : Reordered plans plans') : plans'.length = plans.length := by
  obtain ⟨between, hperm, hlike⟩ := h
  rw [← hlike.length_eq, hperm.length_eq]

theorem perm (h : Reordered plans plans') :
    ((TypePlan.listed plans).map bareVisit).Perm ((TypePlan.listed plans').map bareVisit) := by
  obtain ⟨between, hperm, hlike⟩ := h
  refine ((hperm.flatMap_right _).map _).trans ?_
  clear hperm
  induction hlike with
  | nil => exact .refl _
  | @cons type type' rest rest' hhead _ ih =>
    obtain ⟨hlike, hproperties⟩ := hhead
    rw [List.flatMap_cons, TypePlan.listed, List.flatMap_cons, List.map_append, List.map_append, List.map_map,
      List.map_map]
    have hsame : bareVisit ∘ (type', ·) = bareVisit ∘ (type, ·) :=
      funext fun plan => congrArg (·, plan) hlike
    rw [hsame]
    exact (hproperties.map _).append ih

end TypePlan.Reordered

/-- Everything that the plans and the setters in them refer to is in the module. -/
structure Module.Contains (m : Module) (plans : List TypePlan) : Prop where
  methods : ∀ type ∈ plans, ∀ i ∈ type.methods, i.index < m.methods.size
  events : ∀ t d, m.type? t = some d → ∀ e ∈ d.events, ∀ i ∈ e.methods, i.index < m.methods.size
  code : ∀ v ∈ TypePlan.listed plans, ∀ i d body, v.2.property.setter = some i → m.method? i = some d →
    d.body = some body → ∀ k ∈ body.code, k.Before m.serial m.methods.size

theorem Module.Contains.grounded {m : Module} {plans : List TypePlan} (h : m.Contains plans)
    {v : TypePlan × PropertyPlan} (hv : v ∈ TypePlan.listed plans) : Weaving.Grounded m v.1 v.2 := by
  obtain ⟨type, htype, hmem⟩ := List.mem_flatMap.mp hv
  obtain ⟨plan, hplan, rfl⟩ := List.mem_map.mp hmem
  have hmethods : ∀ i ∈ type.invoker.methods ++ type.dirtySetter.toList ++ type.hooks.map (·.method)
      ++ type.properties.flatMap fun p => p.property.methods ++ p.dependents.flatMap (·.methods),
      i.index < m.methods.size := h.methods type htype
  have hproperty : ∀ p : Property, p = plan.property ∨ p ∈ plan.dependents → ∀ i ∈ p.methods,
      i.index < m.methods.size := by
    intro p hp i hi
    refine hmethods i (List.mem_append_right _ (List.mem_flatMap.mpr ⟨plan, hplan, ?_⟩))
    rcases hp with rfl | hp
    · exact List.mem_append_left _ hi
    · exact List.mem_append_right _ (List.mem_flatMap.mpr ⟨p, hp, hi⟩)
  exact {
    invoker := fun i hi => hmethods i (by simp [hi])
    dirtySetter := fun i hi => hmethods i (by
      simp only [List.mem_append, Option.mem_toList]
      exact .inl (.inl (.inr hi)))
    hooks := fun hook hhook => hmethods _ (by
      simp only [List.mem_append, List.mem_map]
      exact .inl (.inr ⟨hook, hhook, rfl⟩))
    targets := fun target htarget => by
      rcases List.mem_append.mp htarget with hdependent | hself
      · exact hproperty target (.inr (PropertyPlan.mem_of_mem_distinctFrom hdependent))
      · exact hproperty target (.inl (List.mem_singleton.mp hself))
    events := h.events
    code := h.code _ hv }

/-- What two passes over the same plans made of a module, if it is the same: under other names for labels
that were drawn and methods that were declared, the setters are the same in `n` and `n'`, and so are the
handlers. -/
structure Module.Matches (m : Module) (plans : List TypePlan) (ρ : Renaming) (n n' : Module) : Prop where
  label : Function.Bijective ρ.label
  method : Function.Bijective ρ.method
  keeps : ρ.Keeps m.serial m.methods.size
  setters : ∀ v ∈ TypePlan.listed plans, ∀ i, v.2.property.setter = some i →
    n'.method? i = (n.method? i).map ρ.entry
  others : ∀ i : MethodId, i.index < m.methods.size →
    (∀ v ∈ TypePlan.listed plans, v.2.property.setter ≠ some i) →
    n.method? i = m.method? i ∧ n'.method? i = m.method? i
  handlers : ∀ i : MethodId, m.methods.size ≤ i.index → i.index < n.methods.size →
    ∃ d token, n.method? i = some d ∧ n'.method? (ρ.method i) = some { ρ.entry d with token }
  covered : ∀ j : MethodId, m.methods.size ≤ j.index → j.index < n'.methods.size →
    ∃ i : MethodId, m.methods.size ≤ i.index ∧ i.index < n.methods.size ∧ ρ.method i = j

namespace Weaving

variable {options : Options} {resolver : Resolver} {m n n' : Module} {plans plans' : List TypePlan}
  {vs : List (TypePlan × PropertyPlan)}

theorem isMarked_of_setter {p p' : Property} (h : p.setter = p'.setter) : isMarked m p = isMarked m p' := by
  unfold isMarked
  rw [h]

theorem Trace.marked (h : Trace options resolver m vs ⟨m, {}⟩ n) {i : MethodId}
    (hi : i.index < m.methods.size) {p : Property} (hset : p.setter = some i)
    (hmarked : isMarked m p = true) : n.method? i = m.method? i := by
  refine h.others i hi fun x _ hunmarked heq => ?_
  rw [isMarked_of_setter (heq.trans hset.symm), hmarked] at hunmarked
  cases hunmarked

/-- Two passes over the same properties that come to their end leave the same but for the names. -/
theorem matches_of_traces (hcoherent : m.Coherent) (hsteady : resolver.Steady m)
    (hcontains : m.Contains plans) (hreordered : TypePlan.Reordered plans plans')
    (hnodup : ((TypePlan.listed plans).map bareVisit).Nodup)
    (htrace : Trace options resolver m (TypePlan.listed plans) ⟨m, {}⟩ n)
    (htrace' : Trace options resolver m (TypePlan.listed plans') ⟨m, {}⟩ n') :
    ∃ ρ, m.Matches plans ρ n n' := by
  have hperm := hreordered.perm
  obtain ⟨labels', hold, hlabels⟩ :=
    @exists_rearrangement _ _ (labels options resolver m) _ _ hperm hnodup m.serial
  obtain ⟨methods', hold', hmethods⟩ :=
    @exists_rearrangement _ _ (handlers options resolver m) _ _ hperm hnodup m.methods.size
  have hrearranges : Rearranges options resolver m (TypePlan.listed plans) (TypePlan.listed plans')
      labels' methods' := ⟨hlabels, hmethods, hold, hold'⟩
  have hkeeps : (Renaming.rearranged labels' methods').Keeps m.serial m.methods.size :=
    Renaming.keeps_rearranged hold hold'
  have hbijective := Renaming.bijective_rearranged labels' methods'
  have hpartner : ∀ v ∈ TypePlan.listed plans, ∃ v' ∈ TypePlan.listed plans', bareVisit v' = bareVisit v :=
    fun v hv => List.mem_map.mp (hperm.mem_iff.mp (List.mem_map_of_mem hv))
  have hpartner' : ∀ v' ∈ TypePlan.listed plans', ∃ v ∈ TypePlan.listed plans, bareVisit v = bareVisit v' :=
    fun v' hv' => List.mem_map.mp (hperm.mem_iff.mpr (List.mem_map_of_mem hv'))
  have hsame : ∀ {v v' : TypePlan × PropertyPlan}, bareVisit v = bareVisit v' →
      isMarked m v.2.property = isMarked m v'.2.property :=
    fun heq => congrArg (isMarked m ·.property) (Prod.mk.inj heq).2
  have hset : ∀ {v v' : TypePlan × PropertyPlan}, bareVisit v = bareVisit v' →
      v.2.property.setter = v'.2.property.setter :=
    fun heq => congrArg (·.property.setter) (Prod.mk.inj heq).2
  refine ⟨.rearranged labels' methods', hbijective.1, hbijective.2, hkeeps, fun v hv i hi => ?_,
    fun i hlt hunset => ⟨?_, ?_⟩, fun i hle hlt => ?_, fun j hle hlt => ?_⟩
  -- a marked setter was left alone by both passes; another one was woven by both
  · cases hmarked : isMarked m v.2.property with
    | true =>
      have hlt := (hcontains.grounded hv).setter_lt hi
      rw [htrace.marked hlt hi hmarked, htrace'.marked hlt hi hmarked]
      cases hd : m.method? i with
      | none => rfl
      | some d =>
        have hbody : d.body.map (Renaming.rearranged labels' methods').body = d.body := by
          cases hbody : d.body with
          | none => rfl
          | some body => exact congrArg some (Renaming.body_of_before hkeeps (hcontains.code v hv i d body hi hd hbody))
        rw [Option.map_some, Renaming.entry, hbody]
    | false =>
      obtain ⟨v', hv', heq⟩ := hpartner v hv
      obtain ⟨woven, w, u, hstop⟩ := htrace.stops v hv hmarked
      obtain ⟨woven', w', u', hstop'⟩ := htrace'.stops v' hv' ((hsame heq).trans hmarked)
      exact (hstop.beside hcoherent hsteady (hcontains.grounded hv) hrearranges hv heq hstop').2.1 i hi
  · exact htrace.others i hlt fun v hv _ => hunset v hv
  · refine htrace'.others i hlt fun v' hv' _ hi => ?_
    obtain ⟨v, hv, heq⟩ := hpartner' v' hv'
    exact hunset v hv ((hset heq).trans hi)
  · obtain ⟨v, hv, hmarked, woven, w, u, hstop, hhandler⟩ := htrace.new i hle hlt
    obtain ⟨v', hv', heq⟩ := hpartner v hv
    obtain ⟨woven', w', u', hstop'⟩ := htrace'.stops v' hv' ((hsame heq).trans hmarked)
    exact (hstop.beside hcoherent hsteady (hcontains.grounded hv) hrearranges hv heq hstop').2.2 i hhandler
  -- a new method of the second pass is the image of the one that the
  -- first pass declared for the same property
  · obtain ⟨v', hv', hmarked, woven', w', u', hstop', hhandler'⟩ := htrace'.new j hle hlt
    obtain ⟨v, hv, heq⟩ := hpartner' v' hv'
    obtain ⟨woven, w, u, hstop⟩ := htrace.stops v hv ((hsame heq).trans hmarked)
    obtain ⟨hhandler, -, hentry⟩ :=
      hstop.beside hcoherent hsteady (hcontains.grounded hv) hrearranges hv heq.symm hstop'
    rw [hhandler'] at hhandler
    obtain ⟨i, hi, hmoved⟩ := Option.map_eq_some_iff.mp hhandler.symm
    obtain ⟨d, token, hd, -⟩ := hentry i hi
    refine ⟨i, ?_, ?_, hmoved⟩
    · rw [(worked_checkedSetter hcoherent hstop.ready hstop.run).handler i hi]
      exact hstop.ready.grown.count
    · by_contra hnot
      rw [Module.method?_of_size_le (Nat.le_of_not_lt hnot)] at hd
      cases hd

theorem perm_listed (hreordered : TypePlan.Reordered plans plans') {b : TypePlan × PropertyPlan} :
    b ∈ (TypePlan.listed plans).map bareVisit ↔ b ∈ (TypePlan.listed plans').map bareVisit :=
  hreordered.perm.mem_iff

theorem grounded_reordered (hcontains : m.Contains plans) (hreordered : TypePlan.Reordered plans plans')
    {v : TypePlan × PropertyPlan} (hv : v ∈ TypePlan.listed plans') : Grounded m v.1 v.2 := by
  obtain ⟨x, hx, heq⟩ := List.mem_map.mp ((perm_listed hreordered).mpr (List.mem_map_of_mem hv))
  have hbare : Grounded m v.1.bare v.2 := by
    rw [← (Prod.mk.inj heq).1, ← (Prod.mk.inj heq).2]
    exact (hcontains.grounded hx).bare
  exact ⟨hbare.invoker, hbare.dirtySetter, hbare.hooks, hbare.targets, hbare.events, hbare.code⟩

theorem Distinct.reordered (h : Distinct (TypePlan.listed plans))
    (hreordered : TypePlan.Reordered plans plans') : Distinct (TypePlan.listed plans') := by
  have hbare : ((TypePlan.listed plans).map bareVisit).Pairwise
      fun v v' => ∀ i, v.2.property.setter = some i → v'.2.property.setter ≠ some i :=
    List.pairwise_map.mpr h
  exact List.pairwise_map.mp ((hreordered.perm.pairwise_iff fun h i hi hi' => h i hi' hi).mp hbare)

theorem fine_reordered (hreordered : TypePlan.Reordered plans plans') :
    (∀ v ∈ TypePlan.listed plans, Fine options resolver m v)
      ↔ ∀ v ∈ TypePlan.listed plans', Fine options resolver m v := by
  have hbare : ∀ plans : List TypePlan, (∀ v ∈ TypePlan.listed plans, Fine options resolver m v)
      ↔ ∀ b ∈ (TypePlan.listed plans).map bareVisit, Fine options resolver m b := by
    intro plans
    rw [List.forall_mem_map]
    exact Iff.rfl
  rw [hbare, hbare]
  exact forall_congr' fun b => imp_congr_left (perm_listed hreordered)

theorem tallies_reordered (hreordered : TypePlan.Reordered plans plans') (s : WeaveSummary) :
    (TypePlan.listed plans').foldl (fun s v => tally options resolver m v s) s
      = (TypePlan.listed plans).foldl (fun s v => tally options resolver m v s) s := by
  have hbare : ∀ vs : List (TypePlan × PropertyPlan), vs.foldl (fun s v => tally options resolver m v s) s
      = (vs.map bareVisit).foldl (fun s v => tally options resolver m v s) s := by
    intro vs
    rw [List.foldl_map]
    rfl
  rw [hbare (TypePlan.listed plans), hbare (TypePlan.listed plans')]
  exact (@List.Perm.foldl_eq' _ _ (fun s v => tally options resolver m v s) _ _ hreordered.perm
    (fun v _ v' _ s => tally_comm options resolver m v' v s) s).symm

theorem weave_cases (options : Options) (resolver : Resolver) (m : Module) (plans : List TypePlan) :
    ((TypePlan.listed plans).foldlM (step options resolver) ({}, ⟨m, {}⟩) = none
        ∧ ∃ e, (({ options, resolver } : Weaver).weave plans m).1 = .error e)
      ∨ ∃ s w, (TypePlan.listed plans).foldlM (step options resolver) ({}, ⟨m, {}⟩) = some (s, w)
        ∧ (({ options, resolver } : Weaver).weave plans m).1 = .ok { s with types := plans.length }
        ∧ (({ options, resolver } : Weaver).weave plans m).2.2 = w.module := by
  have hanswer : answer ((all options resolver plans).run.run ⟨m, {}⟩) = _ := answer_plans plans {} ⟨m, {}⟩
  have hresult : (({ options, resolver } : Weaver).weave plans m).1
      = ((all options resolver plans).run.run ⟨m, {}⟩).1 := rfl
  have hmodule : (({ options, resolver } : Weaver).weave plans m).2.2
      = ((all options resolver plans).run.run ⟨m, {}⟩).2.module := rfl
  rw [hresult, hmodule]
  cases hrun : (all options resolver plans).run.run ⟨m, {}⟩ with
  | mk result w =>
    rw [hrun] at hanswer
    cases hsteps : (TypePlan.listed plans).foldlM (step options resolver) ({}, ⟨m, {}⟩) with
    | none =>
      rw [hsteps] at hanswer
      cases result with
      | error e => exact .inl ⟨rfl, e, rfl⟩
      | ok s => cases hanswer
    | some y =>
      rw [hsteps] at hanswer
      cases result with
      | error e => cases hanswer
      | ok s =>
        obtain ⟨rfl, rfl⟩ := Prod.mk.inj (Option.some.inj hanswer)
        have hcount : ({} : WeaveSummary).types + plans.length = plans.length := Nat.zero_add _
        refine .inr ⟨y.1, y.2, rfl, ?_, rfl⟩
        rw [hcount]

end Weaving

open Weaving in
/-- The order of a pass does not matter. The same plans in another order of types and of properties fail
too, or they succeed too with the same summary, and every setter and every handler is the same but for the
names that were drawn. -/
theorem Weaver.weave_reordered {options : Options} {resolver : Resolver} {m : Module}
    {plans plans' : List TypePlan} (hcoherent : m.Coherent) (hsteady : resolver.Steady m)
    (hcontains : m.Contains plans) (hdistinct : Distinct (TypePlan.listed plans))
    (hreordered : TypePlan.Reordered plans plans') :
    ((∃ e, (({ options, resolver } : Weaver).weave plans m).1 = .error e)
        ∧ ∃ e, (({ options, resolver } : Weaver).weave plans' m).1 = .error e)
      ∨ ∃ s, (({ options, resolver } : Weaver).weave plans m).1 = .ok s
        ∧ (({ options, resolver } : Weaver).weave plans' m).1 = .ok s
        ∧ ∃ ρ, m.Matches plans ρ (({ options, resolver } : Weaver).weave plans m).2.2
          (({ options, resolver } : Weaver).weave plans' m).2.2 := by
  have hwalk := @walk_cases options resolver m (TypePlan.listed plans) ⟨m, {}⟩ {} hcoherent hsteady
    hdistinct (fun v hv => hcontains.grounded hv) fun v _ => ready_start m v.2
  have hwalk' := @walk_cases options resolver m (TypePlan.listed plans') ⟨m, {}⟩ {} hcoherent hsteady
    (hdistinct.reordered hreordered) (fun v hv => grounded_reordered hcontains hreordered hv)
    fun v _ => ready_start m v.2
  have hfine := @fine_reordered options resolver m plans plans' hreordered
  rcases weave_cases options resolver m plans with ⟨hnone, hfailed⟩ | ⟨s, w, hsome, hresult, hmodule⟩
  · refine .inl ⟨hfailed, ?_⟩
    rcases weave_cases options resolver m plans' with ⟨-, hfailed'⟩ | ⟨s', w', hsome', -, -⟩
    · exact hfailed'
    · obtain ⟨-, v, hv, hfails⟩ := hwalk.resolve_right fun ⟨w, hsome, _⟩ => by
        rw [hnone] at hsome
        cases hsome
      obtain ⟨-, -, hall, -⟩ := hwalk'.resolve_left fun ⟨hnone', _⟩ => by
        rw [hnone'] at hsome'
        cases hsome'
      exact absurd (hfine.mpr hall v hv) hfails
  · obtain ⟨w₁, hsome₁, hall, htrace⟩ := hwalk.resolve_left fun ⟨hnone, _⟩ => by
      rw [hnone] at hsome
      cases hsome
    obtain ⟨rfl, rfl⟩ := Prod.mk.inj (Option.some.inj (hsome.symm.trans hsome₁))
    obtain ⟨w', hsome', -, htrace'⟩ := hwalk'.resolve_left fun ⟨_, v, hv, hfails⟩ =>
      hfails (hfine.mp hall v hv)
    rcases weave_cases options resolver m plans' with ⟨hnone', -⟩ | ⟨s', w₁', hsome₁', hresult', hmodule'⟩
    · rw [hnone'] at hsome'
      cases hsome'
    obtain ⟨rfl, rfl⟩ := Prod.mk.inj (Option.some.inj (hsome'.symm.trans hsome₁'))
    refine .inr ⟨_, hresult, ?_, ?_⟩
    · rw [hresult', hreordered.length_eq, tallies_reordered hreordered]
    · rw [hmodule, hmodule']
      exact matches_of_traces hcoherent hsteady hcontains hreordered (hdistinct.nodup hall) htrace htrace'

/-! ## Two properties that follow their values -/

namespace Twins

def twin : Field := ⟨⟨4⟩, "<Twin>k__BackingField", .privateBit, ⟨1⟩⟩

def property : Property := ⟨⟨22⟩, "Twin", ⟨1⟩, some ⟨8⟩, some ⟨9⟩, []⟩

/-- The tree whose nodes follow their child, and follow a twin besides. -/
def module : Module where
  name := "Twins"
  types := (Sapling.module Sapling.plain).types.modify 1 (·.map fun d => { d with
    fields := d.fields ++ [twin], methods := d.methods ++ [⟨8⟩, ⟨9⟩], properties := d.properties ++ [property] })
  methods := (Sapling.module Sapling.plain).methods ++ #[
    some (Sapling.method 38 "get_Twin" 0 ⟨1⟩
      (some (Sapling.body [.ldarg 0, .ldfld twin, .ret])) (some ⟨1⟩)),
    some (Sapling.method 39 "set_Twin" 1 ⟨1⟩
      (some (Sapling.body [.ldarg 0, .ldarg 1, .stfld twin, .ret])))]
  registry := (Sapling.module Sapling.plain).registry

def plan : PropertyPlan := { property, backing := some twin }

def root : TypePlan := { type := ⟨0⟩, invoker := .simple ⟨4⟩ }

def forth : List TypePlan := [{ Sapling.type with properties := [Sapling.plan, plan] }, root]

def back : List TypePlan := [root, { Sapling.type with properties := [plan, Sapling.plan] }]

def pass (plans : List TypePlan) : Except Error WeaveSummary × Weaver × Module :=
  ({} : Weaver).weave plans module

theorem pass_forth : pass forth
    = (.ok { types := 2, woven := 2, notifications := 2, handlers := 2 },
      (pass forth).2.1, (pass forth).2.2) := by
  have hresult : (pass forth).1 = .ok { types := 2, woven := 2, notifications := 2, handlers := 2 } := by
    decide +kernel
  rw [← hresult]

theorem coherent : module.Coherent := by
  intro t u d e hd he hname c
  have hall : ∀ i j : Fin 8, ∀ d ∈ module.type? ⟨i⟩, ∀ e ∈ module.type? ⟨j⟩, d.fullName = e.fullName →
      i = j := by
    decide +kernel
  have hsize : module.types.size = 8 := by decide +kernel
  have ht : t.index < 8 := hsize ▸ Module.index_lt_of_type? hd
  have hu : u.index < 8 := hsize ▸ Module.index_lt_of_type? he
  have hindex := Fin.mk.inj (hall ⟨t.index, ht⟩ ⟨u.index, hu⟩ d hd e he hname)
  obtain rfl : t = u := congrArg TypeId.mk hindex
  rfl

theorem contains : module.Contains forth where
  methods := by decide +kernel
  events t d hd e he i hi := by
    have hall : ∀ o ∈ module.types.toList, ∀ d ∈ o, ∀ e ∈ d.events, ∀ i ∈ e.methods,
        i.index < module.methods.size := by
      decide +kernel
    exact hall _ (Module.mem_types hd) d rfl e he i hi
  code v hv i d body hset hd hbody := by
    have hall : ∀ v ∈ TypePlan.listed forth, ∀ i ∈ v.2.property.setter, ∀ d ∈ module.method? i,
        ∀ body ∈ d.body, ∀ k ∈ body.code, k.Before module.serial module.methods.size := by
      decide +kernel
    exact hall v hv i hset d hd body hbody

end Twins

open Weaving Twins in
/-- In the one order the handler of the child is declared first, in the other that of the twin. -/
theorem Weaver.weave_reordered_twins :
    (pass forth).1 = .ok { types := 2, woven := 2, notifications := 2, handlers := 2 }
      ∧ (pass back).1 = (pass forth).1
      ∧ ((pass forth).2.2.method? ⟨10⟩).map (·.name) ≠ ((pass back).2.2.method? ⟨10⟩).map (·.name)
      ∧ ∃ ρ, Twins.module.Matches forth ρ (pass forth).2.2 (pass back).2.2 := by
  have hresult : (pass forth).1 = .ok { types := 2, woven := 2, notifications := 2, handlers := 2 } :=
    congrArg Prod.fst pass_forth
  have hdistinct : Distinct (TypePlan.listed forth) := by
    refine List.pairwise_pair.mpr fun i hset hset' => ?_
    obtain rfl := Option.some.inj hset
    cases hset'
  have hreordered : TypePlan.Reordered forth back :=
    ⟨[root, { Sapling.type with properties := [Sapling.plan, plan] }], .swap _ _ _,
      .cons ⟨rfl, .refl _⟩ (.cons ⟨rfl, .swap _ _ _⟩ .nil)⟩
  have hpass : ∀ plans, ({} : Weaver).weave plans Twins.module = pass plans :=
    fun _ => rfl
  have hcases := @Weaver.weave_reordered {} .standard Twins.module forth back coherent
    (Resolver.steady_standard _) contains
    hdistinct hreordered
  rw [hpass, hpass] at hcases
  rcases hcases with ⟨⟨e, hfailed⟩, -⟩ | ⟨s, hforth, hback, hmatches⟩
  · cases hresult.symm.trans hfailed
  · exact ⟨hresult, hback.trans hforth.symm, by decide +kernel, hmatches⟩

end SetterLoom
