import SetterLoom.Proofs.Weave.Beside

/-!
# Every followed property has a handler of its own

The code of a woven setter points to the handler that was declared for it, if it follows its value, and
to no other method that is new. Handlers are declared one after the other, so no other code points to it.

* `Layout.mem_pointed`, `Layout.pointed_of_subscribed`: what woven code points to.
* `Handed.weave`: one more setter.
* `Course.handed`: a whole pass.
-/

namespace SetterLoom
set_option autoImplicit false

/-! ## Pointers in code -/

/-- The method that the operation makes a pointer to. -/
def Op.pointed? (op : Op) : Option MethodId :=
  match op.code, op.operand with
  | .ldftn, .method use => some use.method
  | _, _ => none

/-- The methods that the code makes pointers to, in order. -/
def Stream.pointed (code : Stream) : List MethodId := code.filterMap (·.op.pointed?)

/-- The methods that the code of a method makes pointers to. -/
def Module.pointed (m : Module) (i : MethodId) : List MethodId :=
  ((m.method? i).bind (·.body)).elim [] (·.code.pointed)

/-- The handler of a property: the method that its setter points to first. -/
def Module.delegate? (m : Module) (p : Property) : Option MethodId :=
  p.setter.bind fun i => (m.pointed i).head?

theorem Op.pointed?_eq_none {op : Op} (h : op.code ≠ .ldftn) : op.pointed? = none := by
  unfold Op.pointed?
  split
  · exact absurd ‹_› h
  · rfl

theorem Stream.mem_pointed {code : Stream} {h : MethodId} :
    h ∈ code.pointed ↔ ∃ i ∈ code, i.op.pointed? = some h := List.mem_filterMap

theorem Module.pointed_eq {m : Module} {i : MethodId} {d : Method} {body : Body} (hd : m.method? i = some d)
    (hbody : d.body = some body) : m.pointed i = body.code.pointed := by
  unfold pointed
  rw [hd, Option.bind_some, hbody, Option.elim_some]

theorem Module.pointed_congr {m m' : Module} {i : MethodId} (h : m'.method? i = m.method? i) :
    m'.pointed i = m.pointed i := by
  unfold pointed
  rw [h]

namespace Layout

variable {ctx : BlockContext} {subscription : Option (Field × Event × MethodId)}
  {called : List String} {anchors : List Nat} {before : String → Bool → UInt16}
  {l : Layout ctx subscription called anchors before} {code : Stream} {h : MethodId}

private theorem pointed_of_parts {field : Field} {handler accessor : MethodId} {block : List Instruction}
    (P : ctx.Parts field handler accessor block) {i : Instruction} (hi : i ∈ block)
    (hpointed : i.op.pointed? = some h) : h = handler := by
  rw [P.block_eq] at hi
  simp only [List.mem_append, List.mem_cons, List.not_mem_nil, or_false] at hi
  rcases hi with (hi | rfl | hi) | rfl
  · have hop : i.op ∈ P.test.map (·.op) := List.mem_map_of_mem hi
    rw [P.test_ops] at hop
    have hall : ∀ op ∈ ctx.testOps field P.equals, op.pointed? = none := by
      unfold BlockContext.testOps
      intro op hop
      simp only [List.mem_append, List.mem_cons, List.not_mem_nil, or_false] at hop
      rcases hop with ((rfl | rfl) | hop) | rfl | rfl
      · rfl
      · rfl
      · split at hop
        · rw [List.mem_singleton.mp hop]
          rfl
        · cases hop
      · rfl
      · rfl
    rw [hall _ hop] at hpointed
    cases hpointed
  -- only the operation that makes the pointer points anywhere
  · rw [P.branch_op] at hpointed
    cases hpointed
  · have hop : i.op ∈ P.inner.map (·.op) := List.mem_map_of_mem hi
    rw [P.inner_ops] at hop
    unfold BlockContext.accessOps at hop
    simp only [List.mem_cons, List.not_mem_nil, or_false] at hop
    rcases hop with hop | hop | hop | hop | hop | hop <;> rw [hop] at hpointed <;> cases hpointed
    rfl
  · cases hpointed

/-- Woven code points to what the unedited code pointed to, and to the handler. -/
theorem mem_pointed (hpointed : h ∈ (l.weave code).pointed) :
    h ∈ code.pointed ∨ ∃ field event, subscription = some (field, event, h) := by
  obtain ⟨i, hi, hop⟩ := Stream.mem_pointed.mp hpointed
  rcases l.mem_weave hi with hi | hi
  · exact .inl (Stream.mem_pointed.mpr ⟨i, hi, hop⟩)
  right
  have hsubscription : i ∈ l.unsubscribe ∨ i ∈ l.subscribe :=
    (l.injected_cases hi).resolve_left fun h =>
      Option.some_ne_none _ (hop.symm.trans (Op.pointed?_eq_none h.1.not_ldftn))
  obtain ⟨field, event, handler, rfl⟩ := l.exists_subscription hsubscription
  obtain ⟨add, remove, -, -, ⟨P⟩, ⟨Q⟩⟩ := l.subscription_parts
  refine ⟨field, event, ?_⟩
  rcases hsubscription with hi | hi
  · rw [pointed_of_parts Q hi hop]
  · rw [pointed_of_parts P hi hop]

theorem pointed_of_subscribed {field : Field} {event : Event}
    {l : Layout ctx (some (field, event, h)) called anchors before}
    (hanchored : Anchored (some (field, event, h)) anchors code) : h ∈ (l.weave code).pointed := by
  obtain ⟨add, remove, -, -, ⟨P⟩, -⟩ := l.subscription_parts
  have hop : Op.ldftn h ∈ P.inner.map (·.op) := by
    rw [P.inner_ops]
    simp [BlockContext.accessOps]
  obtain ⟨i, hi, hiop⟩ := List.mem_map.mp hop
  have hmem : i ∈ l.subscribe := by
    rw [P.block_eq]
    simp [hi]
  refine Stream.mem_pointed.mpr ⟨i, l.weave_of_injected (l.mem_subscription hanchored (.inr hmem)), ?_⟩
  rw [hiop]
  rfl

/-- Woven code that follows a value points to the handler first if the unedited code points to nothing. -/
theorem head?_pointed {field : Field} {event : Event}
    {l : Layout ctx (some (field, event, h)) called anchors before}
    (hanchored : Anchored (some (field, event, h)) anchors code) (hplain : code.pointed = []) :
    (l.weave code).pointed.head? = some h := by
  have hpointed := pointed_of_subscribed (l := l) hanchored
  cases hlist : (l.weave code).pointed with
  | nil =>
    rw [hlist] at hpointed
    cases hpointed
  | cons x rest =>
    have hx : x ∈ (l.weave code).pointed := by
      rw [hlist]
      exact List.mem_cons_self
    rcases mem_pointed hx with hold | ⟨f, event', heq⟩
    · rw [hplain] at hold
      cases hold
    · cases heq
      rfl

end Layout

theorem BlockContext.InHandler.pointed {ctx : BlockContext} {op : Op} (h : ctx.InHandler op) :
    op.pointed? = none := by
  rcases h with rfl | rfl | ⟨target, -, before, after, hop⟩
  · rfl
  · rfl
  · exact Op.pointed?_eq_none (unlabelled_announceOps target before after op hop).1.not_ldftn

namespace Weaving

variable {options : Options} {resolver : Resolver} {visits : List (TypePlan × PropertyPlan)}
  {v : TypePlan × PropertyPlan} {i j h : MethodId} {w w₁ w' : Workpiece}

namespace Edit

variable {m n m' : Module} {d : Method} {body result : Body}
  {subscription : Option (Field × Event × MethodId)} {called : List String}
  {before : String → Bool → UInt16}
  {l : Layout ⟨options, resolver, n, v.1, v.2⟩ subscription called (v.2.anchors body.code).1 before}

theorem pointed_setter (hedit : Edit options resolver v m i d body result n m' subscription l) :
    m'.pointed i = (l.weave body.code).pointed := by
  rw [Module.pointed_eq (by rw [hedit.method?, if_pos rfl]) rfl, hedit.code]

theorem mem_pointed (hedit : Edit options resolver v m i d body result n m' subscription l)
    (hd : m.method? i = some d) (hbody : d.body = some body) (hpointed : h ∈ m'.pointed j) :
    h ∈ m.pointed j ∨ j = i ∧ ∃ field event, subscription = some (field, event, h) := by
  by_cases hij : i = j
  · subst hij
    rw [hedit.pointed_setter] at hpointed
    rcases Layout.mem_pointed hpointed with hold | hnew
    · exact .inl (by rwa [Module.pointed_eq hd hbody])
    · exact .inr ⟨rfl, hnew⟩
  · rw [Module.pointed_congr (m := n) (by rw [hedit.method?, if_neg hij])] at hpointed
    rcases hedit.declared with ⟨-, rfl⟩ | ⟨_, _, handler, e, -, -, -, -, -, hhandles, hmethods⟩
    · exact .inl hpointed
    · by_cases hj : j = handler
      · subst hj
        unfold Module.pointed at hpointed
        rw [hmethods, if_pos rfl, Option.bind_some] at hpointed
        cases hbody : e.body with
        | none =>
          rw [hbody] at hpointed
          cases hpointed
        | some body =>
          rw [hbody] at hpointed
          obtain ⟨k, hk, hop⟩ := Stream.mem_pointed.mp hpointed
          rw [(hhandles.inHandler hbody k hk).pointed] at hop
          cases hop
      · rw [Module.pointed_congr (m := m) (by rw [hmethods, if_neg hj])] at hpointed
        exact .inl hpointed

end Edit

/-- A workpiece on the way from `m₀`: each pointer to a new method is that of a setter to its own handler,
and the woven setters that have one are those that follow their value. -/
structure Handed (options : Options) (resolver : Resolver) (visits : List (TypePlan × PropertyPlan))
    (m₀ : Module) (w : Workpiece) : Prop where
  stage : Stage options resolver visits m₀ w.module
  grown : m₀.Grown w.module
  knows : w.capabilities.Knows m₀
  known : ∀ j, ∀ h ∈ w.module.pointed j, ∃ d, w.module.method? h = some d
  own : ∀ j j' h, m₀.method? h = none → h ∈ w.module.pointed j → h ∈ w.module.pointed j' → j = j'
  handed : ∀ v ∈ visits, ∀ i d body, v.2.property.setter = some i → m₀.method? i = some d →
    d.body = some body → (∃ h ∈ w.module.pointed i, m₀.method? h = none) →
      (subscribed m₀ options v.1 v.2 (v.2.anchors body.code).2).isSome = true
  followed : ∀ v ∈ visits, ∀ i d body, v.2.property.setter = some i → m₀.method? i = some d →
    d.body = some body → m₀.isWoven i = false → w.module.isWoven i = true →
      (subscribed m₀ options v.1 v.2 (v.2.anchors body.code).2).isSome = true →
        ∃ h ∈ w.module.pointed i, m₀.method? h = none

/-- What a pass is made for: its setters are in the module with their code, each is asked for once, and what
code points to is in the module. -/
structure Prepared (m₀ : Module) (visits : List (TypePlan × PropertyPlan)) : Prop where
  coherent : m₀.Coherent
  bodies : ∀ v ∈ visits, ∀ i, v.2.property.setter = some i →
    ∃ d body, m₀.method? i = some d ∧ d.body = some body
  once : ∀ u ∈ visits, ∀ v ∈ visits, ∀ i, u.2.property.setter = some i → v.2.property.setter = some i → u = v
  known : ∀ j, ∀ h ∈ m₀.pointed j, ∃ d, m₀.method? h = some d
  events : ∀ t d, m₀.type? t = some d → ∀ e ∈ d.events, ∀ i ∈ e.methods, i.index < m₀.methods.size

variable {m₀ : Module}

theorem handed_refl {capabilities : CapabilityCache} (hprepared : Prepared m₀ visits)
    (hknows : capabilities.Knows m₀) : Handed options resolver visits m₀ ⟨m₀, capabilities⟩ where
  stage := stage_refl m₀
  grown := .refl m₀
  knows := hknows
  known := hprepared.known
  own j j' h hnew hj := by
    obtain ⟨d, hd⟩ := hprepared.known j h hj
    rw [hd] at hnew
    cases hnew
  handed v hv i d body _ _ _ := by
    rintro ⟨h, hh, hnew⟩
    obtain ⟨e, he⟩ := hprepared.known i h hh
    rw [he] at hnew
    cases hnew
  followed v hv i d body _ _ _ hunmarked hmarked := by
    rw [show m₀.isWoven i = true from hmarked] at hunmarked
    cases hunmarked

/-- What is followed does not depend on the answers that are kept, nor on what the pass did. -/
theorem Handed.subscribed_eq (hprepared : Prepared m₀ visits) (hhanded : Handed options resolver visits m₀ w)
    (code : Stream) :
    followed? options v.1 v.2 w code = subscribed m₀ options v.1 v.2 (v.2.anchors code).2 := by
  have hcoherent := hhanded.grown.coherent hprepared.coherent
  obtain ⟨hevent, -⟩ := followedEvent?_eq hcoherent ((hhanded.grown.knows_iff _).mpr hhanded.knows)
    options v.1.type v.2.property
  unfold followed? subscribed
  cases v.2.backing with
  | none => rfl
  | some field =>
    cases (v.2.anchors code).2 with
    | false => rfl
    | true =>
      dsimp only
      rw [hevent, hhanded.grown.followed? hprepared.events]

theorem Handed.weave {woven : WovenSetter} (hprepared : Prepared m₀ visits)
    (hhanded : Handed options resolver visits m₀ w) (hv : v ∈ visits)
    (hset : v.2.property.setter = some i) (hunmarked : isMarked w.module v.2.property = false)
    (hchecked : (checkedSetter options resolver v.1 v.2).run.run w = (.ok woven, w₁)) :
    Handed options resolver visits m₀ (Workpiece.mark w₁ i) := by
  obtain ⟨d, body, hd₀, hbody⟩ := hprepared.bodies v hv i hset
  have hmarked : w.module.isWoven i = false := by
    rwa [isMarked_eq, hset, Option.any_some] at hunmarked
  obtain ⟨d', hd⟩ := hhanded.stage.old i d hd₀
  obtain rfl := hhanded.stage.unmarked hmarked hd₀ hd
  have hready : Ready m₀ v.2 w := by
    refine ⟨hhanded.grown, hhanded.knows, fun j hj => ?_⟩
    obtain rfl := Option.some.inj (hset.symm.trans hj)
    rw [hd, hd₀]
  have hworked := worked_checkedSetter hprepared.coherent hready hchecked
  obtain ⟨result, n, subscription, called, before, l, hedit, hfollowed⟩ := exists_edit hset hd hbody hchecked
  rw [hhanded.subscribed_eq hprepared] at hfollowed
  have hstage := hhanded.stage.weave hv hset hd₀ hbody hunmarked hchecked
  -- the setter is in the pass once
  have hown : ∀ u ∈ visits, ∀ e code, u.2.property.setter = some i → m₀.method? i = some e → e.body = some code →
      u = v ∧ e = d' ∧ code = body := by
    intro u hu e code hsetter he hcode
    obtain rfl := hprepared.once u hu v hv i hsetter hset
    obtain rfl := Option.some.inj (hd₀.symm.trans he)
    exact ⟨rfl, rfl, Option.some.inj (hcode.symm.trans hbody)⟩
  have hsame : ∀ k e, i ≠ k → m₀.method? k = some e →
      (Workpiece.mark w₁ i).module.method? k = w.module.method? k := by
    intro k e hne he
    obtain ⟨ek, hek⟩ := hhanded.stage.old k e he
    exact hedit.same hne hek
  refine ⟨hstage, hworked.grown.addAttribute i Surface.woven, hworked.knows, fun j h hj => ?_,
    fun j j' h hfresh hj hj' => ?_, fun u hu k e code hsetter he hcode => ?_,
    fun u hu k e code hsetter he hcode hplain hmarked' hsome => ?_⟩
  · rcases hedit.mem_pointed hd hbody hj with hold | ⟨-, hsome⟩
    · obtain ⟨e, he⟩ := hhanded.known j h hold
      exact hedit.stays he
    · exact (hedit.handler hsome).2
  · -- no code pointed to the handler before
    have hunknown : ∀ k, (∃ field event, subscription = some (field, event, h)) →
        h ∉ w.module.pointed k := by
      intro k hsome hk
      obtain ⟨e, he⟩ := hhanded.known k h hk
      rw [(hedit.handler hsome).1] at he
      cases he
    rcases hedit.mem_pointed hd hbody hj with hold | ⟨rfl, hsome⟩
    · rcases hedit.mem_pointed hd hbody hj' with hold' | ⟨rfl, hsome'⟩
      · exact hhanded.own j j' h hfresh hold hold'
      · exact absurd hold (hunknown _ hsome')
    · rcases hedit.mem_pointed hd hbody hj' with hold' | ⟨rfl, -⟩
      · exact absurd hold' (hunknown _ hsome)
      · rfl
  · by_cases hki : i = k
    · subst hki
      obtain ⟨rfl, rfl, rfl⟩ := hown u hu e code hsetter he hcode
      rw [← hfollowed, Option.isSome_map, hedit.pointed_setter]
      rintro ⟨h, hh, hfresh⟩
      rcases Layout.mem_pointed hh with hold | ⟨field, event, hsome⟩
      · obtain ⟨e, he⟩ := hprepared.known i h (by rwa [Module.pointed_eq hd₀ hbody])
        rw [hfresh] at he
        cases he
      · rw [hsome]
        rfl
    · rw [Module.pointed_congr (hsame k e hki he)]
      exact hhanded.handed u hu k e code hsetter he hcode
  · by_cases hki : i = k
    · subst hki
      obtain ⟨rfl, rfl, rfl⟩ := hown u hu e code hsetter he hcode
      rw [← hfollowed, Option.isSome_map] at hsome
      obtain ⟨⟨field, event, handler⟩, rfl⟩ := Option.isSome_iff_exists.mp hsome
      rw [hedit.pointed_setter]
      exact ⟨handler, Layout.pointed_of_subscribed hedit.anchored,
        hhanded.stage.unknown (hedit.handler ⟨field, event, rfl⟩).1⟩
    · rw [Module.pointed_congr (hsame k e hki he)]
      refine hhanded.followed u hu k e code hsetter he hcode hplain ?_ hsome
      unfold Module.isWoven at hmarked' ⊢
      rwa [hsame k e hki he] at hmarked'

theorem Course.handed {rest : List (TypePlan × PropertyPlan)} {edited : List MethodId}
    (hcourse : Course options resolver w rest edited w') (hprepared : Prepared m₀ visits)
    (hrest : ∀ v ∈ rest, v ∈ visits) (hhanded : Handed options resolver visits m₀ w) :
    Handed options resolver visits m₀ w' := by
  induction hcourse with
  | done => exact hhanded
  | skipped _ _ ih => exact ih (fun v hv => hrest v (List.mem_cons_of_mem _ hv)) hhanded
  | woven hunmarked hset hchecked _ ih =>
    exact ih (fun v hv => hrest v (List.mem_cons_of_mem _ hv))
      (hhanded.weave hprepared (hrest _ List.mem_cons_self) hset hunmarked hchecked)

end Weaving

open Weaving in
/-- A pass over a prepared module hands out its handlers as it should, and marks all setters. -/
theorem Weaver.handed_of_weave {w w' : Weaver} {plans : List TypePlan} {m₀ m : Module} {summary : WeaveSummary}
    (hrun : w.weave plans m₀ = (.ok summary, w', m)) (hknows : w.capabilities.Knows m₀)
    (hprepared : Prepared m₀ (TypePlan.listed plans)) :
    ∃ piece, piece.module = m ∧ Handed w.options w.resolver (TypePlan.listed plans) m₀ piece
      ∧ ∀ v ∈ TypePlan.listed plans, ∀ i, v.2.property.setter = some i → m.isWoven i = true := by
  obtain ⟨piece, hpiece, rfl⟩ := exists_run hrun
  obtain ⟨edited, hcourse, -, -⟩ := course_of_plans hpiece
  exact ⟨piece, rfl, hcourse.handed hprepared (fun v hv => hv) (handed_refl hprepared hknows),
    fun v hv i hset => hcourse.isWoven hv hset⟩

end SetterLoom
