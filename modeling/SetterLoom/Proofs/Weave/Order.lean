import Mathlib.Data.List.Perm.Basic
import SetterLoom.Proofs.Weave.Beside

/-!
# The order of weaving

A pass weaves each property as it would have been woven first: the setters are different ones, and what the
pass did before is seen in the names only that are drawn next. So the same plans in another order, of types
and of properties of a type, come to the same end: the pass fails in both orders or in none, it counts the
same, and the setters and the handlers are the same under other names.

* `Weaving.alone`: a property woven first.
* `Weaving.property_alone`: one step of a pass, against the property woven first.
* `Weaving.Trace`, `walk_cases`: a whole pass, with where it wove each property.
* `tally_comm`: what a pass counts does not depend on the order.
-/

namespace SetterLoom
set_option autoImplicit false

/-- A property with what it needs of the plan of its type. -/
def bareVisit (v : TypePlan × PropertyPlan) : TypePlan × PropertyPlan := (v.1.bare, v.2)

/-- The method with the mark of a woven setter. -/
def Method.marked (d : Method) : Method := { d with attributes := d.attributes ++ [Surface.woven] }

namespace Weaving

/-! ## A property woven first -/

section Alone

variable (options : Options) (resolver : Resolver) (m : Module) (v : TypePlan × PropertyPlan)

/-- The property woven first, into the module as it is before the pass. -/
def alone : Except Error WovenSetter × Workpiece :=
  (checkedSetter options resolver v.1.bare v.2).run.run ⟨m, {}⟩

/-- The property is skipped, or weaving it first succeeds. -/
def Fine : Prop := isMarked m v.2.property = true ∨ ∃ woven u, alone options resolver m v = (.ok woven, u)

/-- The number of labels that are drawn for the property. -/
def labels : Nat :=
  if isMarked m v.2.property then 0 else (alone options resolver m v).2.module.serial - m.serial

/-- The number of handlers that are declared for the property. -/
def handlers : Nat :=
  if isMarked m v.2.property then 0
  else (alone options resolver m v).2.module.methods.size - m.methods.size

/-- What the property adds to a summary. -/
def tally (s : WeaveSummary) : WeaveSummary :=
  if isMarked m v.2.property then s.countSkipped
  else match (alone options resolver m v).1 with
    | .ok woven => s.countWoven woven
    | .error _ => s

end Alone

variable {options : Options} {resolver : Resolver} {m : Module} {v : TypePlan × PropertyPlan}
  {vs rest : List (TypePlan × PropertyPlan)} {w w' u : Workpiece} {s : WeaveSummary} {woven : WovenSetter}

theorem ready_start (m : Module) (plan : PropertyPlan) : Ready m plan ⟨m, {}⟩ :=
  ⟨.refl m, CapabilityCache.knows_empty m, fun _ _ => rfl⟩

theorem isMarked_of_ready (hready : Ready m v.2 w) :
    isMarked w.module v.2.property = isMarked m v.2.property := by
  unfold isMarked
  cases hset : v.2.property.setter with
  | none => rfl
  | some i => rw [Option.bind_some, Option.bind_some, hready.setter i hset]

theorem countWoven_congr {woven' : WovenSetter} (hcalls : woven'.notifications = woven.notifications)
    {f : MethodId → MethodId} (hhandler : woven'.handler = woven.handler.map f) :
    s.countWoven woven' = s.countWoven woven := by
  unfold WeaveSummary.countWoven
  rw [hcalls, hhandler]
  cases woven.handler <;> rfl

theorem Grounded.bare {type : TypePlan} {plan : PropertyPlan} (h : Grounded m type plan) :
    Grounded m type.bare plan :=
  ⟨h.invoker, h.dirtySetter, h.hooks, h.targets, h.events, h.code⟩

/-- One step of a pass does what it would have done first: it skips the property, or fails, or weaves the
setter with as many labels and handlers. -/
theorem property_alone (hcoherent : m.Coherent) (hsteady : resolver.Steady m)
    (hground : Grounded m v.1 v.2) (hready : Ready m v.2 w) (name : String) (s : WeaveSummary) :
    (isMarked m v.2.property = true
        ∧ (property options resolver name v.1 s v.2).run.run w = (.ok s.countSkipped, w))
      ∨ isMarked m v.2.property = false
        ∧ ((∃ e u e' u', alone options resolver m v = (.error e, u)
            ∧ (property options resolver name v.1 s v.2).run.run w = (.error e', u'))
          ∨ ∃ woven₀ u₀ woven u i, alone options resolver m v = (.ok woven₀, u₀)
            ∧ v.2.property.setter = some i
            ∧ (checkedSetter options resolver v.1 v.2).run.run w = (.ok woven, u)
            ∧ (property options resolver name v.1 s v.2).run.run w
              = (.ok (s.countWoven woven₀), Workpiece.mark u i)
            ∧ u.module.serial = w.module.serial + labels options resolver m v
            ∧ u.module.methods.size = w.module.methods.size + handlers options resolver m v) := by
  -- the visit is compared with the one that begins with the property,
  -- under names raised by what was drawn so far
  have hbeside : Beside (.raised m.serial w.module.serial m.methods.size w.module.methods.size) v.2 ⟨m, {}⟩ w
      (alone options resolver m v) ((checkedSetter options resolver v.1 v.2).run.run w) :=
    checkedSetter_beside hcoherent hground.bare hsteady rfl (ready_start m v.2) hready
      (Renaming.keeps_raised ..) (Renaming.injective_raised hready.grown.serial)
      (fun last _ => Renaming.moves_raised _ _ _ _ last) (fun _ => Renaming.method_raised ..)
  have hsame := isMarked_of_ready hready
  rcases property_cases (Prod.eta ((property options resolver name v.1 s v.2).run.run w)).symm with
    ⟨hmarked, hresult, hstate⟩ | ⟨hunmarked, hcases⟩
  · exact .inl ⟨hsame.symm.trans hmarked, Prod.ext hresult hstate⟩
  have hunmarked' : isMarked m v.2.property = false := hsame.symm.trans hunmarked
  refine .inr ⟨hunmarked', ?_⟩
  rcases hbeside with ⟨e, e', u, u', hrun, hrun'⟩ |
    ⟨woven₀, woven, u₀, u, k, hrun, hrun', hcalls, hhandler, hk, hk', -⟩
  · rcases hcases with ⟨cause, hchecked, hresult⟩ | ⟨woven, w₁, i, hchecked, -⟩
    · exact .inl ⟨e, u, _, _, hrun, Prod.ext hresult rfl⟩
    · cases (Prod.mk.inj (hrun'.symm.trans hchecked)).1
  · rcases hcases with ⟨cause, hchecked, -⟩ | ⟨woven₁, w₁, i, hchecked, hset, hresult, hmark⟩
    · cases (Prod.mk.inj (hrun'.symm.trans hchecked)).1
    · obtain ⟨hwoven, rfl⟩ := Prod.mk.inj (hrun'.symm.trans hchecked)
      obtain rfl := Except.ok.inj hwoven
      have hworked := worked_checkedSetter hcoherent (ready_start m v.2) hrun
      have hworked' := worked_checkedSetter hcoherent hready hrun'
      refine .inr ⟨woven₀, u₀, woven, u, i, hrun, hset, hrun', ?_, ?_, ?_⟩
      · rw [← countWoven_congr hcalls hhandler]
        exact Prod.ext hresult hmark
      · have hdrawn : u₀.module.serial = m.serial + k := hk
        unfold labels
        rw [if_neg (by rw [hunmarked']; exact Bool.false_ne_true), hrun, hk', hdrawn]
        omega
      · have hsize := hworked.size
        have hdeclared : u₀.module.methods.size = m.methods.size + woven₀.handler.toList.length := hsize
        have hlength : woven.handler.toList.length = woven₀.handler.toList.length := by
          rw [hhandler]
          cases woven₀.handler <;> rfl
        unfold handlers
        rw [if_neg (by rw [hunmarked']; exact Bool.false_ne_true), hrun, hworked'.size, hlength, hdeclared]
        omega

/-! ## A pass, property by property -/

/-- What a run gives if it succeeds, with the workpiece it leaves. -/
def answer {α : Type} : Except Error α × Workpiece → Option (α × Workpiece)
  | (.ok a, w) => some (a, w)
  | (.error _, _) => none

theorem answer_bind {α β : Type} (x : Weaving α) (f : α → Weaving β) (w : Workpiece) :
    answer ((x >>= f).run.run w) = (answer (x.run.run w)).bind fun y => answer ((f y.1).run.run y.2) := by
  rw [Steps.bind_run]
  cases x.run.run w with
  | mk result w₁ => cases result <;> rfl

/-- One step of a pass, if it succeeds. The name of the type is told by failures only. -/
def step (options : Options) (resolver : Resolver) (x : WeaveSummary × Workpiece)
    (v : TypePlan × PropertyPlan) : Option (WeaveSummary × Workpiece) :=
  answer ((property options resolver "" v.1 x.1 v.2).run.run x.2)

theorem answer_property (name : String) (s : WeaveSummary) (v : TypePlan × PropertyPlan) (w : Workpiece) :
    answer ((property options resolver name v.1 s v.2).run.run w) = step options resolver (s, w) v := by
  have hget : (get : Weaving Workpiece).run.run w = (.ok w, w) := rfl
  unfold step property
  dsimp only
  rw [answer_bind, answer_bind, hget]
  show answer _ = answer _
  by_cases hmarked : isMarked w.module v.2.property = true
  · rw [if_pos hmarked, if_pos hmarked]
  · rw [if_neg hmarked, if_neg hmarked, answer_bind, answer_bind, Steps.tryCatch_run, Steps.tryCatch_run]
    cases (checkedSetter options resolver v.1 v.2).run.run w with
    | mk result w₁ => cases result <;> rfl

theorem step_types (s : WeaveSummary) (w : Workpiece) (v : TypePlan × PropertyPlan) (types : Nat) :
    step options resolver ({ s with types }, w) v
      = (step options resolver (s, w) v).map fun y => ({ y.1 with types }, y.2) := by
  have hget : (get : Weaving Workpiece).run.run w = (.ok w, w) := rfl
  unfold step property
  dsimp only
  rw [answer_bind, answer_bind, hget]
  show answer _ = (answer _).map _
  by_cases hmarked : isMarked w.module v.2.property = true
  · rw [if_pos hmarked, if_pos hmarked]
    rfl
  · rw [if_neg hmarked, if_neg hmarked, answer_bind, answer_bind, Steps.tryCatch_run]
    cases (checkedSetter options resolver v.1 v.2).run.run w with
    | mk result w₁ =>
      cases result with
      | error e => rfl
      | ok woven =>
        unfold mark
        cases v.2.property.setter <;> rfl

theorem walk_types (vs : List (TypePlan × PropertyPlan)) (s : WeaveSummary) (w : Workpiece) (types : Nat) :
    vs.foldlM (step options resolver) ({ s with types }, w)
      = (vs.foldlM (step options resolver) (s, w)).map fun y => ({ y.1 with types }, y.2) := by
  -- the walk goes on with the types it was given, whatever their number
  induction vs generalizing s w with
  | nil => rfl
  | cons v rest ih =>
    rw [List.foldlM_cons, List.foldlM_cons, step_types]
    cases step options resolver (s, w) v with
    | none => rfl
    | some y => exact ih y.1 y.2

theorem answer_properties (properties : List PropertyPlan) (name : String) (type : TypePlan)
    (s : WeaveSummary) (w : Workpiece) :
    answer ((properties.foldlM (property options resolver name type) s).run.run w)
      = (properties.map (type, ·)).foldlM (step options resolver) (s, w) := by
  induction properties generalizing s w with
  | nil => rfl
  | cons plan rest ih =>
    rw [List.foldlM_cons, List.map_cons, List.foldlM_cons, answer_bind,
      answer_property name s (type, plan) w]
    cases step options resolver (s, w) (type, plan) with
    | none => rfl
    | some y => exact ih y.1 y.2

theorem answer_plans (plans : List TypePlan) (s : WeaveSummary) (w : Workpiece) :
    answer ((plans.foldlM (Weaving.type options resolver) s).run.run w)
      = ((TypePlan.listed plans).foldlM (step options resolver) (s, w)).map fun y =>
        ({ y.1 with types := s.types + plans.length }, y.2) := by
  induction plans generalizing s w with
  | nil => rfl
  | cons plan rest ih =>
    have hlisted : TypePlan.listed (plan :: rest)
        = plan.properties.map (plan, ·) ++ TypePlan.listed rest := List.flatMap_cons
    have hcount : s.countType = { s with types := s.types + 1 } := rfl
    rw [List.foldlM_cons, hlisted, List.foldlM_append, answer_bind, type_run, answer_properties, hcount,
      walk_types]
    cases (plan.properties.map (plan, ·)).foldlM (step options resolver) (s, w) with
    | none => rfl
    | some y =>
      show answer ((rest.foldlM (Weaving.type options resolver) { y.1 with types := s.types + 1 }).run.run y.2)
        = ((TypePlan.listed rest).foldlM (step options resolver) y).map _
      rw [ih, walk_types, Option.map_map, List.length_cons, Nat.add_assoc, Nat.add_comm 1]
      rfl

/-! ## Where a pass wove each property -/

/-- A pass over `vs` from `start` wove the property in `w` and left `u`, and the setter and the handler are
still the same in `final`, but for the mark. -/
structure Stop (options : Options) (resolver : Resolver) (m : Module)
    (vs : List (TypePlan × PropertyPlan)) (start : Workpiece) (final : Module)
    (v : TypePlan × PropertyPlan) (woven : WovenSetter) (w u : Workpiece) : Prop where
  ready : Ready m v.2 w
  serial : w.module.serial
    = start.module.serial + startOf (labels options resolver m) (bareVisit v) (vs.map bareVisit)
  size : w.module.methods.size
    = start.module.methods.size + startOf (handlers options resolver m) (bareVisit v) (vs.map bareVisit)
  run : (checkedSetter options resolver v.1 v.2).run.run w = (.ok woven, u)
  drawn : u.module.serial = w.module.serial + labels options resolver m v
  declared : u.module.methods.size = w.module.methods.size + handlers options resolver m v
  setter : ∀ i, v.2.property.setter = some i → final.method? i = (u.module.method? i).map Method.marked
  handler : ∀ h, woven.handler = some h → final.method? h = u.module.method? h

/-- What a pass over `vs` made of the module: every property that was not marked was woven once, and nothing
else happened. -/
structure Trace (options : Options) (resolver : Resolver) (m : Module)
    (vs : List (TypePlan × PropertyPlan)) (start : Workpiece) (final : Module) : Prop where
  size : start.module.methods.size ≤ final.methods.size
  stops : ∀ v ∈ vs, isMarked m v.2.property = false →
    ∃ woven w u, Stop options resolver m vs start final v woven w u
  others : ∀ j : MethodId, j.index < start.module.methods.size →
    (∀ v ∈ vs, isMarked m v.2.property = false → v.2.property.setter ≠ some j) →
    final.method? j = start.module.method? j
  new : ∀ j : MethodId, start.module.methods.size ≤ j.index → j.index < final.methods.size →
    ∃ v ∈ vs, isMarked m v.2.property = false
      ∧ ∃ woven w u, Stop options resolver m vs start final v woven w u ∧ woven.handler = some j

theorem Trace.refl (w : Workpiece) : Trace options resolver m [] w w.module where
  size := Nat.le_refl _
  stops _ hv := absurd hv List.not_mem_nil
  others _ _ _ := rfl
  new _ hj hlt := absurd (Nat.lt_of_lt_of_le hlt hj) (Nat.lt_irrefl _)

theorem Stop.behind {final : Module} {w₂ : Workpiece} {x : TypePlan × PropertyPlan}
    (hserial : w₂.module.serial = w.module.serial + labels options resolver m v)
    (hsize : w₂.module.methods.size = w.module.methods.size + handlers options resolver m v)
    (hne : bareVisit v ≠ bareVisit x) {w₁ : Workpiece}
    (h : Stop options resolver m rest w₂ final x woven w₁ u) :
    Stop options resolver m (v :: rest) w final x woven w₁ u := by
  have hstart : ∀ width : TypePlan × PropertyPlan → Nat, startOf width (bareVisit x)
      ((v :: rest).map bareVisit) = width (bareVisit v) + startOf width (bareVisit x) (rest.map bareVisit) :=
    fun width => if_neg hne
  refine { h with serial := ?_, size := ?_ }
  · rw [h.serial, hserial, hstart, Nat.add_assoc]
    rfl
  · rw [h.size, hsize, hstart, Nat.add_assoc]
    rfl

/-- One more property at the front: it was skipped, or it was woven and left `w₂`. -/
theorem Trace.cons {final : Module} {w₂ : Workpiece}
    (h : Trace options resolver m rest w₂ final)
    (hserial : w₂.module.serial = w.module.serial + labels options resolver m v)
    (hsize : w₂.module.methods.size = w.module.methods.size + handlers options resolver m v)
    (hne : ∀ x ∈ rest, isMarked m x.2.property = false → bareVisit v ≠ bareVisit x)
    (hskipped : isMarked m v.2.property = true → w₂.module.methods.size = w.module.methods.size)
    (hstop : isMarked m v.2.property = false →
      ∃ woven w₁ u, Stop options resolver m (v :: rest) w final v woven w₁ u
        ∧ ∀ j : MethodId, w.module.methods.size ≤ j.index → j.index < w₂.module.methods.size →
          woven.handler = some j)
    (hkept : ∀ j : MethodId, j.index < w.module.methods.size →
      (isMarked m v.2.property = false → v.2.property.setter ≠ some j) →
      w₂.module.method? j = w.module.method? j) :
    Trace options resolver m (v :: rest) w final where
  size := Nat.le_trans (by rw [hsize]; exact Nat.le_add_right _ _) h.size
  stops x hx hunmarked := by
    rcases List.mem_cons.mp hx with rfl | hx
    · obtain ⟨woven, w₁, u, hstop, -⟩ := hstop hunmarked
      exact ⟨woven, w₁, u, hstop⟩
    · obtain ⟨woven, w₁, u, hstop⟩ := h.stops x hx hunmarked
      exact ⟨woven, w₁, u, hstop.behind hserial hsize (hne x hx hunmarked)⟩
  others j hj hunset := by
    have hlt : j.index < w₂.module.methods.size := Nat.lt_of_lt_of_le hj (hsize ▸ Nat.le_add_right _ _)
    rw [h.others j hlt fun x hx => hunset x (List.mem_cons_of_mem _ hx)]
    exact hkept j hj (hunset v List.mem_cons_self)
  new j hj hlt := by
    by_cases hfirst : j.index < w₂.module.methods.size
    · have hunmarked : isMarked m v.2.property = false := by
        by_contra hmarked
        rw [hskipped (by simpa using hmarked)] at hfirst
        omega
      obtain ⟨woven, w₁, u, hstop, hhandler⟩ := hstop hunmarked
      exact ⟨v, List.mem_cons_self, hunmarked, woven, w₁, u, hstop, hhandler j hj hfirst⟩
    · obtain ⟨x, hx, hunmarked, woven, w₁, u, hstop, hhandler⟩ := h.new j (Nat.le_of_not_lt hfirst) hlt
      exact ⟨x, List.mem_cons_of_mem _ hx, hunmarked, woven, w₁, u,
        hstop.behind hserial hsize (hne x hx hunmarked), hhandler⟩

/-- The setters of the properties are different ones. -/
def Distinct (vs : List (TypePlan × PropertyPlan)) : Prop :=
  vs.Pairwise fun v v' => ∀ i, v.2.property.setter = some i → v'.2.property.setter ≠ some i

/-- Behind a setter that was woven and marked the other ones are still ready. -/
theorem ready_behind {x : TypePlan × PropertyPlan} {i : MethodId} (hworked : Worked m v.2 w woven u)
    (hset : v.2.property.setter = some i) (hready : Ready m v.2 w) (hready' : Ready m x.2 w)
    (hground : Grounded m x.1 x.2) (hne : x.2.property.setter ≠ some i) :
    Ready m x.2 (Workpiece.mark u i) where
  grown := hworked.grown.addAttribute i Surface.woven
  knows := hworked.knows
  setter j hj := by
    have hij : i ≠ j := fun heq => hne (heq ▸ hj)
    have hlt : j.index < w.module.methods.size :=
      Nat.lt_of_lt_of_le (hground.setter_lt hj) hready.grown.count
    show (u.module.addAttribute i Surface.woven).method? j = _
    rw [Module.method?_addAttribute_ne _ hij, hworked.others j ?_ ?_]
    · exact hready'.setter j hj
    · exact fun heq => hij (Option.some.inj (hset.symm.trans heq))
    · intro heq
      rw [hworked.handler j heq] at hlt
      exact absurd hlt (Nat.lt_irrefl _)

theorem Trace.skip {final : Module} (h : Trace options resolver m rest w final)
    (hmarked : isMarked m v.2.property = true) : Trace options resolver m (v :: rest) w final := by
  refine h.cons ?_ ?_ ?_ (fun _ => rfl) ?_ fun _ _ _ => rfl
  · unfold labels
    rw [if_pos hmarked, Nat.add_zero]
  · unfold handlers
    rw [if_pos hmarked, Nat.add_zero]
  · intro x _ hunmarked heq
    have hplan : v.2 = x.2 := (Prod.mk.inj heq).2
    rw [← hplan, hmarked] at hunmarked
    cases hunmarked
  · intro hunmarked
    rw [hmarked] at hunmarked
    cases hunmarked

section Woven

variable {final : Module} {i : MethodId} (hunmarked : isMarked m v.2.property = false) (hready : Ready m v.2 w)
  (hground : ∀ x ∈ v :: rest, Grounded m x.1 x.2) (hset : v.2.property.setter = some i)
  (hother : ∀ x ∈ rest, x.2.property.setter ≠ some i)
  (hchecked : (checkedSetter options resolver v.1 v.2).run.run w = (.ok woven, u))
  (hworked : Worked m v.2 w woven u) (hserial : u.module.serial = w.module.serial + labels options resolver m v)
  (hsize : u.module.methods.size = w.module.methods.size + handlers options resolver m v)
  (h : Trace options resolver m rest (Workpiece.mark u i) final)
include hready hground hset hother hchecked hworked hserial hsize h

/-- The setters behind a woven one leave it and its handler as they are, but for the mark. -/
theorem Trace.stop_front : Stop options resolver m (v :: rest) w final v woven w u := by
  have hmark : (Workpiece.mark u i).module.methods.size = u.module.methods.size := Array.size_modify ..
  have hgrown := hready.grown
  have hstart : ∀ width : TypePlan × PropertyPlan → Nat,
      startOf width (bareVisit v) ((v :: rest).map bareVisit) = 0 := fun width => if_pos rfl
  refine {
    ready := hready
    serial := by rw [hstart, Nat.add_zero]
    size := by rw [hstart, Nat.add_zero]
    run := hchecked
    drawn := hserial
    declared := hsize
    setter := fun j hj => ?_
    handler := fun k hk => ?_ }
  · obtain rfl := Option.some.inj (hset.symm.trans hj)
    have hlt : i.index < (Workpiece.mark u i).module.methods.size := by
      rw [hmark, hsize]
      exact Nat.lt_add_right _ (Nat.lt_of_lt_of_le
        ((hground v List.mem_cons_self).setter_lt hset) hgrown.count)
    rw [h.others i hlt fun x hx _ => hother x hx]
    show (u.module.addAttribute i Surface.woven).method? i = _
    unfold Module.addAttribute
    rw [Module.method?_updateMethod, if_pos rfl]
    rfl
  · obtain rfl := hworked.handler k hk
    have hold : ∀ x ∈ v :: rest, x.2.property.setter ≠ some ⟨w.module.methods.size⟩ := by
      intro x hx heq
      have hlt := Nat.lt_of_lt_of_le ((hground x hx).setter_lt heq) hgrown.count
      exact absurd hlt (Nat.lt_irrefl _)
    have hne : i ≠ ⟨w.module.methods.size⟩ := fun heq =>
      hold v List.mem_cons_self (heq ▸ hset)
    rw [h.others _ ?_ fun x hx _ => hold x (List.mem_cons_of_mem _ hx)]
    · exact Module.method?_addAttribute_ne _ hne
    · show w.module.methods.size < _
      rw [hmark, hworked.size, hk]
      exact Nat.lt_succ_self _

include hunmarked

theorem Trace.weave : Trace options resolver m (v :: rest) w final := by
  have hmark : (Workpiece.mark u i).module.methods.size = u.module.methods.size := Array.size_modify ..
  have hnot : ¬ isMarked m v.2.property = true := by
    rw [hunmarked]
    exact Bool.false_ne_true
  refine h.cons hserial (hmark.trans hsize) ?_ (fun hmarked => absurd hmarked hnot) (fun _ => ⟨woven, w, u,
    stop_front hready hground hset hother hchecked hworked hserial hsize h, fun j hle hlt => ?_⟩) ?_
  · intro x hx _ heq
    have hplan : v.2 = x.2 := (Prod.mk.inj heq).2
    exact hother x hx (hplan ▸ hset)
  · rw [hmark, hworked.size] at hlt
    cases hh : woven.handler with
    | none =>
      rw [hh] at hlt
      exact absurd (Nat.lt_of_lt_of_le hlt hle) (Nat.lt_irrefl _)
    | some k =>
      rw [hh] at hlt
      rw [hworked.handler k hh]
      exact congrArg some (congrArg MethodId.mk (Nat.le_antisymm hle (Nat.le_of_lt_succ hlt)))
  · intro j hj hunset
    have hij : i ≠ j := fun heq => hunset hunmarked (heq ▸ hset)
    show (u.module.addAttribute i Surface.woven).method? j = _
    rw [Module.method?_addAttribute_ne _ hij]
    refine hworked.others j (fun heq => hunset hunmarked heq) fun hh => ?_
    rw [hworked.handler j hh] at hj
    exact absurd hj (Nat.lt_irrefl _)

end Woven

/-- A pass over ready properties fails if one of them fails alone; else it weaves them all, and the summary
is what they add up to. -/
theorem walk_cases (hcoherent : m.Coherent) (hsteady : resolver.Steady m) (hdistinct : Distinct vs)
    (hground : ∀ v ∈ vs, Grounded m v.1 v.2) (hready : ∀ v ∈ vs, Ready m v.2 w) :
    (vs.foldlM (step options resolver) (s, w) = none ∧ ∃ v ∈ vs, ¬ Fine options resolver m v)
      ∨ ∃ w', vs.foldlM (step options resolver) (s, w)
          = some (vs.foldl (fun s v => tally options resolver m v s) s, w')
        ∧ (∀ v ∈ vs, Fine options resolver m v) ∧ Trace options resolver m vs w w'.module := by
  -- by induction on the visits, each of which is ready for the module that the ones in front leave
  induction vs generalizing s w with
  | nil => exact .inr ⟨w, rfl, fun v hv => absurd hv List.not_mem_nil, .refl w⟩
  | cons v rest ih =>
    have hground' : ∀ x ∈ rest, Grounded m x.1 x.2 := fun x hx => hground x (List.mem_cons_of_mem _ hx)
    rw [List.foldlM_cons, List.foldl_cons]
    rcases property_alone hcoherent hsteady (hground v List.mem_cons_self) (hready v List.mem_cons_self) "" s
      with ⟨hmarked, hrun⟩ | ⟨hunmarked, ⟨e, u, e', u', halone, hrun⟩ |
        ⟨woven₀, u₀, woven, u, i, halone, hset, hchecked, hrun, hserial, hsize⟩⟩
    · have hstep : step options resolver (s, w) v = some (s.countSkipped, w) := by
        unfold step
        rw [hrun]
        rfl
      have htally : tally options resolver m v s = s.countSkipped := if_pos hmarked
      rw [hstep, htally]
      rcases ih (s := s.countSkipped) (w := w) hdistinct.of_cons hground'
        (fun x hx => hready x (List.mem_cons_of_mem _ hx)) with ⟨hnone, x, hx, hfails⟩ | ⟨w', hsome, hfine, htrace⟩
      · exact .inl ⟨hnone, x, List.mem_cons_of_mem _ hx, hfails⟩
      · refine .inr ⟨w', hsome, fun x hx => ?_, htrace.skip hmarked⟩
        rcases List.mem_cons.mp hx with rfl | hx
        · exact .inl hmarked
        · exact hfine x hx
    · refine .inl ⟨?_, v, List.mem_cons_self, ?_⟩
      · unfold step
        rw [hrun]
        rfl
      · rintro (hmarked | ⟨woven, u, hok⟩)
        · rw [hunmarked] at hmarked
          cases hmarked
        · rw [halone] at hok
          cases hok
    · have hstep : step options resolver (s, w) v = some (s.countWoven woven₀, Workpiece.mark u i) := by
        unfold step
        rw [hrun]
        rfl
      have hnot : ¬ isMarked m v.2.property = true := by
        rw [hunmarked]
        exact Bool.false_ne_true
      have htally : tally options resolver m v s = s.countWoven woven₀ := by
        unfold tally
        rw [if_neg hnot, halone]
      have hworked := worked_checkedSetter hcoherent (hready v List.mem_cons_self) hchecked
      have hother : ∀ x ∈ rest, x.2.property.setter ≠ some i := fun x hx =>
        (List.pairwise_cons.mp hdistinct).1 x hx i hset
      rw [hstep, htally]
      rcases ih (s := s.countWoven woven₀) (w := Workpiece.mark u i) hdistinct.of_cons hground'
        (fun x hx => ready_behind hworked hset (hready v List.mem_cons_self)
          (hready x (List.mem_cons_of_mem _ hx)) (hground' x hx) (hother x hx)) with ⟨hnone, x, hx, hfails⟩ | ⟨w', hsome, hfine, htrace⟩
      · exact .inl ⟨hnone, x, List.mem_cons_of_mem _ hx, hfails⟩
      · refine .inr ⟨w', hsome, fun x hx => ?_, htrace.weave hunmarked (hready v List.mem_cons_self) hground hset
          hother hchecked hworked hserial hsize⟩
        rcases List.mem_cons.mp hx with rfl | hx
        · exact .inr ⟨woven₀, u₀, halone⟩
        · exact hfine x hx

/-! ## What a property adds -/

theorem tally_comm (options : Options) (resolver : Resolver) (m : Module)
    (v v' : TypePlan × PropertyPlan) (s : WeaveSummary) :
    tally options resolver m v (tally options resolver m v' s)
      = tally options resolver m v' (tally options resolver m v s) := by
  have hcounts : ∀ v, ∃ woven skipped notifications handlers, ∀ s : WeaveSummary,
      tally options resolver m v s = ⟨s.types, s.woven + woven, s.skipped + skipped,
        s.notifications + notifications, s.handlers + handlers⟩ := by
    intro v
    unfold tally
    split
    · exact ⟨0, 1, 0, 0, fun s => rfl⟩
    · split
      · rename_i woven _
        exact ⟨1, 0, woven.notifications, woven.handler.toList.length, fun s => rfl⟩
      · exact ⟨0, 0, 0, 0, fun s => rfl⟩
  obtain ⟨a, b, c, d, hv⟩ := hcounts v
  obtain ⟨a', b', c', d', hv'⟩ := hcounts v'
  rw [hv, hv', hv', hv]
  dsimp only
  rw [Nat.add_right_comm s.woven, Nat.add_right_comm s.skipped, Nat.add_right_comm s.notifications,
    Nat.add_right_comm s.handlers]

theorem Fine.exists_setter (h : Fine options resolver m v) : ∃ i, v.2.property.setter = some i := by
  cases hset : v.2.property.setter with
  | some i => exact ⟨i, rfl⟩
  | none =>
    rcases h with hmarked | ⟨woven, u, hrun⟩
    · rw [isMarked, hset] at hmarked
      cases hmarked
    · obtain ⟨i, -, hi, -⟩ := checkedSetter_of_setter (setter_of_checked hrun)
      rw [hset] at hi
      cases hi

theorem Distinct.nodup (h : Distinct vs) (hfine : ∀ v ∈ vs, Fine options resolver m v) :
    (vs.map bareVisit).Nodup := by
  refine List.pairwise_map.mpr (h.imp_of_mem fun {v v'} hv _ hne heq => ?_)
  obtain ⟨i, hset⟩ := (hfine v hv).exists_setter
  have hplan : v.2 = v'.2 := (Prod.mk.inj heq).2
  exact hne i hset (hplan ▸ hset)

end Weaving

end SetterLoom
