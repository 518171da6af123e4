import SetterLoom.Proofs.Machine.Inside
import SetterLoom.Proofs.Weave.Beside
import SetterLoom.Proofs.Weave.Branches

/-!
# Checked code

The check of code looks for the first branch to a label that no instruction carries. It finds none exactly
if the code carries all labels that it names, and then control stays inside the code whenever it is run. A
pass with the check on succeeds only if every setter that it weaves passes, and it weaves a setter once, so
what the setter is in the end is what was checked.

* `checkBranches_eq_ok_iff`, `checkBranches_of_not_resolves`: what the check says.
* `Course.resolves`: the setters that a pass wove.
* `Weaver.checked_stays_inside`: checked code, and the setters behind a pass.
-/

namespace SetterLoom
set_option autoImplicit false

/-- Code carries all labels that it names exactly if nothing in it dangles. -/
theorem Stream.resolves_iff {code : Stream} : code.Resolves ↔ ∀ i ∈ code, ∀ l, ¬ code.Dangles i l := by
  refine forall_congr' fun i => forall_congr' fun _ => forall_congr' fun l => ?_
  unfold Dangles
  rw [position?_eq_none]
  push Not
  rfl

namespace Weaving

variable {options : Options} {resolver : Resolver} {type : TypePlan} {plan : PropertyPlan}
  {w w' : Workpiece} {code : Stream} {i : MethodId}

theorem checkBranches_eq_ok_iff : checkBranches code = .ok () ↔ code.Resolves := by
  rw [checkBranches_eq_ok, Stream.danglingBranch?_eq_none, Stream.resolves_iff]

/-- Of other code the check tells the first instruction that names a label which is not there. -/
theorem checkBranches_of_not_resolves (h : ¬ code.Resolves) :
    ∃ p l, checkBranches code = .error (.danglingBranch p l.number)
      ∧ (∃ i, code[p]? = some i ∧ code.Dangles i l)
      ∧ ∀ q i, q < p → code[q]? = some i → ∀ l', ¬ code.Dangles i l' := by
  cases hfound : code.danglingBranch? with
  | none => exact absurd (Stream.resolves_iff.mpr (Stream.danglingBranch?_eq_none.mp hfound)) h
  | some found =>
    refine ⟨found.1, found.2, ?_, Stream.danglingBranch?_eq_some.mp hfound⟩
    rw [checkBranches, hfound]

theorem resolves_of_checkedSetter {woven : WovenSetter} (hvalidation : options.validation = true)
    (hset : plan.property.setter = some i)
    (hrun : (checkedSetter options resolver type plan).run.run w = (.ok woven, w')) :
    ∃ d body, w'.module.method? i = some d ∧ d.body = some body ∧ body.code.Resolves := by
  obtain ⟨j, body, hset', hbody, hchecked⟩ := checkedSetter_of_setter (setter_of_checked hrun)
  obtain rfl := Option.some.inj (hset.symm.trans hset')
  obtain ⟨d, hd, hbody⟩ := Option.bind_eq_some_iff.mp hbody
  refine ⟨d, body, hd, hbody, checkBranches_eq_ok_iff.mp ?_⟩
  have hresult := (Prod.mk.inj (hrun.symm.trans hchecked)).1
  rw [if_pos hvalidation] at hresult
  cases hbranches : checkBranches body.code with
  | ok _ => rfl
  | error e =>
    rw [hbranches] at hresult
    cases hresult

/-- The setters that a pass with the check on wove pass it in the end. -/
theorem Course.resolves {visits : List (TypePlan × PropertyPlan)} {edited : List MethodId}
    (hvalidation : options.validation = true) (h : Course options resolver w visits edited w')
    (hi : i ∈ edited) :
    ∃ d body, w'.module.method? i = some d ∧ d.body = some body ∧ body.code.Resolves := by
  induction h with
  | done => cases hi
  | skipped _ _ ih => exact ih hi
  | @woven _ w₁ _ _ _ edited k _ _ hset hchecked hmore ih =>
    rcases List.mem_cons.mp hi with rfl | hi
    · obtain ⟨d, body, hd, hbody, hresolves⟩ := resolves_of_checkedSetter hvalidation hset hchecked
      obtain ⟨d', hd', hmark, hwoven⟩ := Course.mark_checked hset hchecked
      obtain rfl := Option.some.inj (hd.symm.trans hd')
      -- the mark keeps the rest of the pass away from the setter
      have hrest : i ∉ edited := fun hmem =>
        absurd ((hmore.unmarked hmem).symm.trans hwoven) Bool.false_ne_true
      exact ⟨_, body, hmore.method?_of_notMem hrest hmark, hbody, hresolves⟩
    · exact ih hi

end Weaving

/-- The check passes exactly the code that carries every label that it names, and of other code it tells the
first instruction that names a label which is not there. Control stays inside code that passes, in every
frame and state and whatever its calls do. So it stays inside each setter that a pass with the check on wove,
if the pass succeeds: inside every setter of a listed property that was not marked before. -/
theorem Weaver.checked_stays_inside :
    (∀ code, Weaving.checkBranches code = .ok ()
      ↔ ∀ i ∈ code, ∀ l, i.op.target? = some l → ∃ j ∈ code, j.label = l)
    ∧ (∀ code, Weaving.checkBranches code ≠ .ok () →
      ∃ p l, Weaving.checkBranches code = .error (.danglingBranch p l.number)
        ∧ (∃ i, code[p]? = some i ∧ i.op.target? = some l ∧ ∀ j ∈ code, j.label ≠ l)
        ∧ ∀ q i, q < p → code[q]? = some i →
          ∀ l', i.op.target? = some l' → ∃ j ∈ code, j.label = l')
    ∧ (∀ code, Weaving.checkBranches code = .ok () →
      ∀ (c : Site) (call : Call) (f : Frame) (s : Machine), c.Inside call code f s)
    ∧ ∀ (w w' : Weaver) (plans : List TypePlan) (m m' : Module) (s : WeaveSummary),
      w.options.validation = true → w.weave plans m = (.ok s, w', m') →
      ∀ v ∈ TypePlan.listed plans, ∀ i d, v.2.property.setter = some i → m.method? i = some d →
        d.hasAttribute Surface.woven = false →
        ∃ d' body, m'.method? i = some d' ∧ d'.body = some body
          ∧ ∀ (c : Site) (call : Call) (f : Frame) (s : Machine), c.Inside call body.code f s := by
  refine ⟨fun code => Weaving.checkBranches_eq_ok_iff, fun code hcode => ?_, fun code hcode => ?_,
    fun w w' plans m m' s hvalidation hrun v hv i d hset hd hunmarked => ?_⟩
  · obtain ⟨p, l, herror, ⟨i, hi, hdangles⟩, hfirst⟩ :=
      Weaving.checkBranches_of_not_resolves (mt Weaving.checkBranches_eq_ok_iff.mpr hcode)
    refine ⟨p, l, herror, ⟨i, hi, hdangles.1, Stream.position?_eq_none.mp hdangles.2⟩,
      fun q j hq hj l' hl' => ?_⟩
    by_contra hnone
    push Not at hnone
    exact hfirst q j hq hj l' ⟨hl', Stream.position?_eq_none.mpr hnone⟩
  · exact Site.inside_of_resolves (Weaving.checkBranches_eq_ok_iff.mp hcode)
  · obtain ⟨piece, hpiece, rfl⟩ := exists_run hrun
    obtain ⟨edited, hcourse, -⟩ := Weaving.course_of_plans hpiece
    have hedited : i ∈ edited := (hcourse.mem_edited hd).mpr ⟨⟨v, hv, hset⟩, hunmarked⟩
    obtain ⟨d', body, hd', hbody, hresolves⟩ := hcourse.resolves hvalidation hedited
    exact ⟨d', body, hd', hbody, Site.inside_of_resolves hresolves⟩

open Weaving Weaving.Chain in
/-- The setter that stores in a loop passes the check and so does what a pass made of it, and a branch to
nowhere is told with its position. -/
theorem Weaver.checked_stays_inside_chain :
    (∀ (c : Site) (call : Call) (f : Frame) (s : Machine), c.Inside call Chain.setNext.code f s)
      ∧ (∃ d body, pass.2.2.method? ⟨1⟩ = some d ∧ d.body = some body
        ∧ ∀ (c : Site) (call : Call) (f : Frame) (s : Machine), c.Inside call body.code f s)
      ∧ ∃ p l, checkBranches (Sapling.body Sapling.stray).code = .error (.danglingBranch p l.number)
        ∧ ∃ i, (Sapling.body Sapling.stray).code[p]? = some i ∧ i.op.target? = some l := by
  obtain ⟨-, hdangling, hinside, hpass⟩ := Weaver.checked_stays_inside
  have hresult : pass.1
      = .ok { types := 1, woven := 1, skipped := 1, notifications := 2, handlers := 1 } := by
    decide +kernel
  have hrun : pass = (.ok { types := 1, woven := 1, skipped := 1, notifications := 2, handlers := 1 },
      pass.2.1, pass.2.2) := by
    rw [← hresult]
  have hlisted : (repeated 2, Chain.property) ∈ TypePlan.listed [repeated 2] :=
    List.mem_flatMap.mpr ⟨repeated 2, List.mem_cons_self, List.mem_map_of_mem List.mem_cons_self⟩
  refine ⟨hinside Chain.setNext.code (by decide +kernel), ?_, ?_⟩
  · exact hpass _ _ _ _ _ _ rfl hrun _ hlisted ⟨1⟩ (Chain.methodOf "set_Next" (some Chain.setNext)) rfl rfl
      (by decide +kernel)
  · obtain ⟨p, l, herror, ⟨i, hi, hl, -⟩, -⟩ :=
      hdangling (Sapling.body Sapling.stray).code (by decide +kernel)
    exact ⟨p, l, herror, i, hi, hl⟩

end SetterLoom
