import Mathlib.Algebra.BigOperators.Group.Finset.Piecewise
import Mathlib.Algebra.GroupWithZero.Nat
import SetterLoom.Proofs.Weave.Confined
import SetterLoom.Proofs.Weave.Order
import SetterLoom.Proofs.Weave.Targets

/-!
# What a summary accounts for

The counters of a summary are kept beside the edits, by the pass and by the draft of each setter. They agree
with what the pass makes of the module: the setters that got their mark, the methods that were added to types,
and the announcements that were woven into setters. Those can be told beforehand, from the plans and the code
that the setters have before the pass.

* `Draft.Counts`, `Weaving.counts_edits`: the calls that edits count.
* `Layout.length_announcedNames`: the announcements in the code that is inserted.
* `Weaving.Reckoned`, `reckoned_walk`: one property more, and a run over any number of them.
* `Weaver.summary_accounts`: a whole pass.
-/

namespace SetterLoom
set_option autoImplicit false

namespace PropertyPlan

/-- The targets that the setter does not announce by itself. -/
def unannounced (plan : PropertyPlan) : List Property := plan.targets.filter fun t => !plan.announces t.name

/-- The number of calls that belong into code: one for each of these targets at each anchor. -/
def calls (plan : PropertyPlan) (code : Stream) : Nat :=
  (plan.anchors code).1.length * plan.unannounced.length

end PropertyPlan

/-! ## The calls that are counted -/

namespace Draft

/-- Every run of the steps that succeeds counts so many calls. -/
def Counts {α : Type} (steps : Drafting α) (n : Nat) : Prop :=
  ∀ ⦃d a d'⦄, steps.run.run d = (.ok a, d') → d'.calls = d.calls + n

theorem keeps_calls : Keeps fun d d' => d'.calls = d.calls where
  refl _ := rfl
  trans h h' := h'.trans h
  addSlot _ _ := rfl
  addCapture _ _ _ := rfl
  labelled _ _ := rfl
  insert position code d := by
    show (insert position code d).2.calls = d.calls
    unfold insert
    split <;> rfl
  append _ _ := rfl
  prepend _ _ := rfl

variable {α β : Type} {steps : Drafting α} {more : α → Drafting β} {n k : Nat}

theorem Counts.of_within (h : Steps.Within (fun d d' : Draft => d'.calls = d.calls) steps) : Counts steps 0 := by
  intro d a d' hrun
  have hsame := h d
  rw [hrun] at hsame
  exact hsame

theorem Counts.bind (h : Counts steps n) (hmore : ∀ a, Counts (more a) k) : Counts (steps >>= more) (n + k) := by
  intro d b d' hrun
  obtain ⟨a, d₁, hfirst, hrest⟩ := Steps.bind_ok.mp hrun
  rw [hmore a hrest, h hfirst, Nat.add_assoc]

theorem counts_pure (a : α) : Counts (pure a) 0 := .of_within (keeps_calls.pure a)

theorem counts_countCall : Counts countCall 1 := by
  intro d a d' hrun
  obtain ⟨-, rfl⟩ := Prod.mk.inj hrun
  rfl

end Draft

namespace BlockContext

open Draft

variable (ctx : BlockContext)

theorem counts_announcement (target : Property) (hook : List Op) :
    Counts (if ctx.property.announces target.name then pure hook
      else ctx.invokerCall .entry target >>= fun call =>
        countCall >>= fun _ => pure (hook ++ call))
      (if ctx.property.announces target.name then 0 else 1) := by
  split
  · exact counts_pure hook
  · have hcall := Counts.of_within (keeps_calls.invokerCall ctx .entry target)
    exact hcall.bind fun call => counts_countCall.bind fun _ => counts_pure (hook ++ call)

theorem counts_targetBlock (called : List String) (target : Property) :
    Counts (ctx.targetBlock called target) (if ctx.property.announces target.name then 0 else 1) := by
  unfold targetBlock
  dsimp only
  split
  · rename_i hook _
    have hhook := Counts.of_within (keeps_calls.hookCall ctx target hook)
    simpa using hhook.bind (ctx.counts_announcement target)
  · exact ctx.counts_announcement target []

theorem counts_targetBlocks (called : List String) (targets : List Property) :
    Counts (ctx.targetBlocks called targets)
      (targets.filter fun t => !ctx.property.announces t.name).length := by
  induction targets with
  | nil => exact counts_pure []
  | cons target rest ih =>
    have hboth := (ctx.counts_targetBlock called target).bind fun block =>
      ih.bind fun more => counts_pure (block ++ more)
    cases hannounced : ctx.property.announces target.name with
    | true => simpa [targetBlocks, hannounced] using hboth
    | false => simpa [targetBlocks, hannounced, Nat.add_comm] using hboth

theorem counts_weaveAnchor (called : List String) (anchor : Nat) :
    Counts (ctx.weaveAnchor called anchor) ctx.property.unannounced.length :=
  (((ctx.counts_targetBlocks called ctx.property.targets).bind fun _ => counts_pure _).bind fun ops =>
    (Counts.of_within (keeps_calls.labelled ops)).bind fun code =>
      Counts.of_within (keeps_calls.insert anchor code))

theorem counts_weaveAnchors (called : List String) (anchors : List Nat) :
    Counts (anchors.forM (ctx.weaveAnchor called)) (anchors.length * ctx.property.unannounced.length) := by
  induction anchors with
  | nil => simpa using counts_pure ()
  | cons anchor rest ih =>
    rw [List.forM_eq_forM, List.forM_cons, List.length_cons, Nat.succ_mul, Nat.add_comm]
    exact (ctx.counts_weaveAnchor called anchor).bind fun _ => ih

end BlockContext

namespace Weaving

/-- The edits of a body count a call for each anchor and target. -/
theorem counts_edits (ctx : BlockContext) (called : List String) (anchors : List Nat)
    (subscription : Option (Field × Event × MethodId)) :
    Draft.Counts (edits ctx called anchors subscription)
      (anchors.length * ctx.property.unannounced.length) := by
  rw [edits_eq, ← List.length_reverse]
  exact (ctx.counts_weaveAnchors called anchors.reverse).bind fun _ =>
    (Draft.Counts.of_within (Draft.keeps_calls.subscribed ctx anchors subscription)).bind fun _ =>
      Draft.Counts.of_within Draft.keeps_calls.prependPrologue

end Weaving

/-! ## The announcements that are inserted -/

theorem length_targetNames_filter (plan : PropertyPlan) :
    (plan.targetNames.filter fun name => !plan.announces name).length = plan.unannounced.length := by
  unfold PropertyPlan.targetNames PropertyPlan.unannounced
  rw [List.filter_map, List.length_map]
  rfl

namespace BlockContext

variable {ctx : BlockContext}

theorem announcedNames_entryOps (readings : List Reading) (before : String → Bool → UInt16) :
    announcedNames (ctx.entryOps readings before) = [] := by
  unfold entryOps
  induction firstReadings readings with
  | nil => rfl
  | cons reading rest ih =>
    rw [List.flatMap_cons, announcedNames_append, announcedNames_readOps, ih]
    rfl

end BlockContext

namespace Layout

variable {ctx : BlockContext} {subscription : Option (Field × Event × MethodId)}
  {called : List String} {anchors : List Nat} {before : String → Bool → UInt16}

theorem serves (l : Layout ctx subscription called anchors before) {p : Nat} (hp : p ∈ anchors) :
    ctx.Serves called ((l.notification p).map (·.op)) := by
  obtain ⟨after, hlength, hops⟩ := l.notification_ops p hp
  exact hops ▸ BlockContext.serves_changeOps hlength

theorem length_announcedNames_block (l : Layout ctx subscription called anchors before) (code : Stream) (p : Nat) :
    (announcedNames ((l.block code p).map (·.op))).length
      = if p ∈ anchors then ctx.property.unannounced.length else 0 := by
  rw [l.announcedNames_block]
  split
  · rename_i hp
    rw [(l.serves hp).announced, length_targetNames_filter]
  · rfl

/-- The inserted code announces each target at each anchor, unless the setter does by itself. -/
theorem length_announcedNames (l : Layout ctx subscription called anchors before) {code : Stream}
    (hnodup : anchors.Nodup) (hle : ∀ p ∈ anchors, p ≤ code.length) :
    (announcedNames ((l.injected code).map (·.op))).length
      = anchors.length * ctx.property.unannounced.length := by
  have hblocks : ∀ positions : List Nat,
      (announcedNames ((positions.flatMap (l.block code)).map (·.op))).length
        = (positions.filter (· ∈ anchors)).length * ctx.property.unannounced.length := by
    intro positions
    induction positions with
    | nil => simp [announcedNames]
    | cons p rest ih =>
      rw [List.flatMap_cons, List.map_append, announcedNames_append, List.length_append, ih,
        l.length_announcedNames_block]
      by_cases hp : p ∈ anchors
      · simp [hp, Nat.add_mul, Nat.add_comm]
      · simp [hp]
  -- the anchors are positions of the code, so they all come up, each once
  have hall : ((List.range (code.length + 1)).filter (· ∈ anchors)).Perm anchors := by
    refine (List.perm_ext_iff_of_nodup (List.nodup_range.filter _) hnodup).mpr fun p => ?_
    simp only [List.mem_filter, List.mem_range, decide_eq_true_eq]
    exact ⟨fun h => h.2, fun hp => ⟨Nat.lt_succ_of_le (hle p hp), hp⟩⟩
  unfold injected Stream.injected
  rw [List.map_append, announcedNames_append, l.prologue_ops, BlockContext.announcedNames_entryOps,
    List.nil_append, hblocks, hall.length_eq]

end Layout

/-! ## Marks and lists of methods -/

namespace Module

variable {m n : Module} {i j : MethodId} {t : TypeId}

/-- The number of methods that the types of the module list. -/
def methodEntries (m : Module) : Nat :=
  ∑ t ∈ Finset.range m.types.size, (m.type? ⟨t⟩).elim 0 fun d => d.methods.length

theorem Gains.methodEntries_eq (h : m.Gains n i t [j]) (hsize : n.types.size = m.types.size)
    (ht : (m.type? t).isSome = true) : n.methodEntries = m.methodEntries + 1 := by
  obtain ⟨d, hd⟩ := Option.isSome_iff_exists.mp ht
  have hlt : t.index < m.types.size := by
    by_contra hge
    simp [type?, Array.getElem?_eq_none (Nat.le_of_not_lt hge)] at hd
  have hentry : ∀ u : Nat, (n.type? ⟨u⟩).elim 0 (fun d => d.methods.length)
      = (m.type? ⟨u⟩).elim 0 (fun d => d.methods.length) + if u = t.index then 1 else 0 := by
    intro u
    by_cases hu : u = t.index
    · subst hu
      rw [h.type, hd]
      simp
    · rw [h.types ⟨u⟩ fun heq => hu (congrArg TypeId.index heq), if_neg hu, Nat.add_zero]
  unfold methodEntries
  rw [hsize, Finset.sum_congr rfl fun u _ => hentry u, Finset.sum_add_distrib, Finset.sum_ite_eq',
    if_pos (Finset.mem_range.mpr hlt)]

theorem isWoven_setBody (m : Module) (i j : MethodId) (body : Option Body) :
    (m.setBody i body).isWoven j = m.isWoven j := by
  unfold isWoven setBody
  rw [method?_updateMethod]
  split
  · cases m.method? j <;> rfl
  · rfl

theorem isWoven_declareOn {s : MethodSpec} (hs : s.attributes = []) (t : TypeId) (m : Module) (j : MethodId) :
    (s.declareOn t m).2.isWoven j = m.isWoven j := by
  unfold isWoven
  rw [method?_declareOn_eq]
  split
  · rename_i heq
    have hnone : m.method? j = none := by simp [heq, method?]
    simp [hnone, MethodSpec.entry, Method.hasAttribute, hs]
  · rfl

theorem isWoven_addAttribute_eq {d : Method} (hd : m.method? i = some d) (j : MethodId) :
    (m.addAttribute i Surface.woven).isWoven j = (decide (j = i) || m.isWoven j) := by
  by_cases hji : j = i
  · subst hji
    simp [isWoven_addAttribute hd]
  · unfold isWoven
    rw [method?_addAttribute_ne _ (Ne.symm hji)]
    simp [hji]

end Module

/-! ## One setter -/

namespace Weaving

variable {options : Options} {resolver : Resolver} {type : TypePlan} {plan : PropertyPlan} {w w' w₁ : Workpiece}
  {i j : MethodId} {d : Method} {body : Body} {woven : WovenSetter}

theorem isWoven_checkedSetter {result : Except Error WovenSetter}
    (hrun : (checkedSetter options resolver type plan).run.run w = (result, w')) (j : MethodId) :
    w'.module.isWoven j = w.module.isWoven j := by
  obtain ⟨result', hsetter⟩ := exists_setter_run hrun
  rcases setter_leaves hsetter with hsame | ⟨i, d, body, n, draft, -, -, -, hn, -, hmodule⟩
  · rw [hsame]
  · have hdeclared : n.isWoven j = w.module.isWoven j := by
      rcases hn with rfl | ⟨h, hdeclare⟩
      · rfl
      · obtain ⟨object, arguments, draft, -, -, -, hdeclared⟩ := declareHandler_ok hdeclare
        obtain ⟨-, rfl⟩ := Prod.mk.inj hdeclared
        exact Module.isWoven_declareOn rfl type.type { w.module with serial := draft.serial } j
    rw [hmodule]
    exact (Module.isWoven_setBody n i j (some draft.body)).trans hdeclared

/-- A type that is gone has no capabilities, and nothing is followed for it. -/
theorem isSome_type?_of_followed? {code : Stream} {followed : Field × Event}
    (h : followed? options type plan w code = some followed) :
    (w.module.type? type.type).isSome = true := by
  by_contra hnone
  have hgone : w.module.line type.type = [] :=
    Module.line_of_none (Option.not_isSome_iff_eq_none.mp hnone)
  have hasked : w.capabilities.ask w.module .childChanges type.type = (false, w.capabilities) := by
    rw [CapabilityCache.ask, hgone, CapabilityCache.askLine]
  have hnothing : (followedEvent? w.module options type.type plan.property w.capabilities).1 = none := by
    unfold followedEvent?
    split
    · rfl
    · rw [hasked]
      rfl
  unfold followed? at h
  split at h
  · rw [hnothing] at h
    cases h
  · cases h

theorem notifications_of_finish {called : List String} {subscription : Option (Field × Event × MethodId)}
    (hrun : finish options resolver type plan i body called subscription w = (.ok woven, w')) :
    woven.notifications = plan.calls body.code := by
  obtain ⟨hresult, -⟩ := Prod.mk.inj hrun
  have hcounts := counts_edits ⟨options, resolver, w.module, type, plan⟩ called (plan.anchors body.code).1
    subscription
  cases hedits : (edits ⟨options, resolver, w.module, type, plan⟩ called (plan.anchors body.code).1
      subscription).run.run { body, serial := w.module.serial } with
  | mk result draft =>
    rw [hedits] at hresult
    cases result with
    | error e => cases hresult
    | ok u =>
      obtain rfl := Except.ok.inj hresult
      exact (hcounts hedits).trans (Nat.zero_add _)

/-- Weaving a setter counts the calls that belong into its code, and gives its handler to the type. -/
theorem checkedSetter_accounts (hset : plan.property.setter = some i) (hd : w.module.method? i = some d)
    (hbody : d.body = some body)
    (hrun : (checkedSetter options resolver type plan).run.run w = (.ok woven, w')) :
    woven.notifications = plan.calls body.code
      ∧ w'.module.methodEntries = w.module.methodEntries + woven.handler.toList.length := by
  obtain ⟨n, capabilities, subscription, hsubscription, hfinish⟩ :=
    finish_of_setter hset hd hbody (setter_of_checked hrun)
  refine ⟨notifications_of_finish hfinish, ?_⟩
  have hentries : w'.module.methodEntries = n.methodEntries := by
    rw [← (Prod.mk.inj hfinish).2]
    rfl
  rw [hentries, handler_of_finish hfinish]
  cases hevent : followed? options type plan w body.code with
  | none =>
    rw [hevent] at hsubscription
    obtain ⟨rfl, rfl⟩ := hsubscription
    rfl
  | some f =>
    rw [hevent] at hsubscription
    obtain ⟨h, rfl, hdeclare⟩ := hsubscription
    have hshaped := (BlockContext.exists_declareHandler hdeclare).1
    exact (gains_declareHandler hdeclare i).methodEntries_eq hshaped.size (isSome_type?_of_followed? hevent)

end Weaving

/-! ## One property after the other -/

/-- The properties that a pass weaves: of those with one setter the first, unless the setter is marked. -/
def TypePlan.unwoven (marked : MethodId → Bool) :
    List (TypePlan × PropertyPlan) → List (TypePlan × PropertyPlan)
  | [] => []
  | v :: rest =>
    if v.2.property.setter.any marked then unwoven marked rest
    else v :: unwoven (fun i => marked i || v.2.property.setter == some i) rest

/-- The number of calls that belong into the setter of a property, by the code that the setter has. -/
def Module.callsFor (m : Module) (v : TypePlan × PropertyPlan) : Nat :=
  ((v.2.property.setter.bind m.method?).bind (·.body)).elim 0 fun body => v.2.calls body.code

theorem Module.callsFor_eq {m : Module} {v : TypePlan × PropertyPlan} {i : MethodId} {d : Method} {body : Body}
    (hset : v.2.property.setter = some i) (hd : m.method? i = some d) (hbody : d.body = some body) :
    m.callsFor v = v.2.calls body.code := by
  simp [callsFor, hset, hd, hbody]

namespace Weaving

variable {options : Options} {resolver : Resolver} {m m' : Module} {marked : MethodId → Bool}
  {v : TypePlan × PropertyPlan} {vs rest : List (TypePlan × PropertyPlan)} {edited : List MethodId}
  {s s₁ s' : WeaveSummary} {w w₁ w' u : Workpiece} {i : MethodId} {woven : WovenSetter}

/-- The code of the setter is the one that it had, with code inserted that serves the targets at each anchor.
That makes as many announcements as there are calls for the setter. -/
def Announced (options : Options) (resolver : Resolver) (m m' : Module) (v : TypePlan × PropertyPlan) : Prop :=
  ∃ i d body result, v.2.property.setter = some i ∧ m.method? i = some d ∧ d.body = some body
    ∧ (m'.method? i).bind (·.body) = some result
    ∧ ∃ n subscription called before,
      ∃ l : Layout ⟨options, resolver, n, v.1, v.2⟩ subscription called (v.2.anchors body.code).1 before,
        result.code = l.weave body.code
          ∧ (∀ p ∈ (v.2.anchors body.code).1, BlockContext.Serves ⟨options, resolver, n, v.1, v.2⟩ called
            ((l.notification p).map (·.op)))
          ∧ (announcedNames ((l.injected body.code).map (·.op))).length = m.callsFor v

/-- What a run over `vs` counted, beside the course that it took. The setters in `marked` carried the mark in
front of it, and `m` is the module that the others are still as in. -/
structure Reckoned (options : Options) (resolver : Resolver) (m : Module) (marked : MethodId → Bool)
    (vs : List (TypePlan × PropertyPlan)) (edited : List MethodId) (s : WeaveSummary) (w : Workpiece)
    (s' : WeaveSummary) (w' : Workpiece) : Prop where
  course : Course options resolver w vs edited w'
  setters : (TypePlan.unwoven marked vs).map (·.2.property.setter) = edited.map some
  woven : s'.woven = s.woven + edited.length
  total : s'.woven + s'.skipped = s.woven + s.skipped + vs.length
  handlers : s'.handlers + w.module.methodEntries = s.handlers + w'.module.methodEntries
  notifications : s'.notifications = s.notifications + ((TypePlan.unwoven marked vs).map m.callsFor).sum
  announced : ∀ v ∈ TypePlan.unwoven marked vs, Announced options resolver m w'.module v

theorem Reckoned.nil (m : Module) (marked : MethodId → Bool) (s : WeaveSummary) (w : Workpiece) :
    Reckoned options resolver m marked [] [] s w s w where
  course := .done w
  setters := rfl
  woven := rfl
  total := rfl
  handlers := rfl
  notifications := rfl
  announced _ hv := absurd hv List.not_mem_nil

theorem Reckoned.skipped (h : Reckoned options resolver m marked rest edited s.countSkipped w s' w')
    (hmarked : isMarked w.module v.2.property = true) (hunwoven : v.2.property.setter.any marked = true) :
    Reckoned options resolver m marked (v :: rest) edited s w s' w' := by
  have hrest : TypePlan.unwoven marked (v :: rest) = TypePlan.unwoven marked rest := if_pos hunwoven
  refine ⟨.skipped hmarked h.course, hrest ▸ h.setters, h.woven, ?_, h.handlers, hrest ▸ h.notifications,
    hrest ▸ h.announced⟩
  have htotal := h.total
  simp only [WeaveSummary.countSkipped, List.length_cons] at htotal ⊢
  omega

theorem Reckoned.cons
    (h : Reckoned options resolver m (fun j => marked j || v.2.property.setter == some j) rest edited
      (s.countWoven woven) (Workpiece.mark u i) s' w')
    (hunmarked : isMarked w.module v.2.property = false) (hunwoven : v.2.property.setter.any marked = false)
    (hset : v.2.property.setter = some i)
    (hchecked : (checkedSetter options resolver v.1 v.2).run.run w = (.ok woven, u))
    (hcalls : woven.notifications = m.callsFor v)
    (hentries : u.module.methodEntries = w.module.methodEntries + woven.handler.toList.length)
    (hannounced : Announced options resolver m w'.module v) :
    Reckoned options resolver m marked (v :: rest) (i :: edited) s w s' w' := by
  have hfirst : TypePlan.unwoven marked (v :: rest)
      = v :: TypePlan.unwoven (fun j => marked j || v.2.property.setter == some j) rest :=
    if_neg (by simp [hunwoven])
  have hmark : (Workpiece.mark u i).module.methodEntries = u.module.methodEntries := rfl
  obtain ⟨hcourse, hsetters, hwoven, htotal, hhandlers, hnotifications, hall⟩ := h
  refine ⟨.woven hunmarked hset hchecked hcourse, ?_, ?_, ?_, ?_, ?_, fun x hx => ?_⟩
  · rw [hfirst, List.map_cons, hsetters, hset, List.map_cons]
  · simp only [WeaveSummary.countWoven, List.length_cons] at hwoven ⊢
    omega
  · simp only [WeaveSummary.countWoven, List.length_cons] at htotal ⊢
    omega
  · simp only [WeaveSummary.countWoven, hmark] at hhandlers
    omega
  · rw [hfirst, List.map_cons, List.sum_cons]
    simp only [WeaveSummary.countWoven] at hnotifications
    omega
  · rcases List.mem_cons.mp (hfirst ▸ hx) with rfl | hx
    · exact hannounced
    · exact hall x hx

theorem step_cases (h : step options resolver (s, w) v = some (s₁, w₁)) :
    (isMarked w.module v.2.property = true ∧ s₁ = s.countSkipped ∧ w₁ = w)
      ∨ isMarked w.module v.2.property = false ∧ ∃ woven u i,
        (checkedSetter options resolver v.1 v.2).run.run w = (.ok woven, u)
          ∧ v.2.property.setter = some i ∧ s₁ = s.countWoven woven ∧ w₁ = Workpiece.mark u i := by
  unfold step at h
  dsimp only at h
  cases hrun : (property options resolver "" v.1 s v.2).run.run w with
  | mk result w₂ =>
    rw [hrun] at h
    rcases property_cases hrun with ⟨hmarked, rfl, rfl⟩ |
      ⟨hunmarked, ⟨e, -, rfl⟩ | ⟨woven, u, i, hchecked, hset, rfl, rfl⟩⟩
    · obtain ⟨rfl, rfl⟩ := Prod.mk.inj (Option.some.inj h)
      exact .inl ⟨hmarked, rfl, rfl⟩
    · cases h
    · obtain ⟨rfl, rfl⟩ := Prod.mk.inj (Option.some.inj h)
      exact .inr ⟨hunmarked, woven, u, i, hchecked, hset, rfl, rfl⟩

theorem exists_body_of_checked (hset : v.2.property.setter = some i)
    (hchecked : (checkedSetter options resolver v.1 v.2).run.run w = (.ok woven, u)) :
    ∃ d body, w.module.method? i = some d ∧ d.body = some body := by
  obtain ⟨j, d, body, hset', hd, hbody⟩ : v.2.HasBody w.module := by
    by_contra hnone
    obtain ⟨e, herror⟩ := setter_of_not_hasBody options resolver v.1 hnone
    cases (Prod.mk.inj ((setter_of_checked hchecked).symm.trans herror)).1
  obtain rfl := Option.some.inj (hset.symm.trans hset')
  exact ⟨d, body, hd, hbody⟩

theorem announced_of_checked {d d' : Method} {body : Body} (hset : v.2.property.setter = some i)
    (hm : m.method? i = some d) (hd : w.module.method? i = some d) (hbody : d.body = some body)
    (hchecked : (checkedSetter options resolver v.1 v.2).run.run w = (.ok woven, u))
    (hleft : (Workpiece.mark u i).module.method? i = some d') (hstays : m'.method? i = some d') :
    Announced options resolver m m' v := by
  obtain ⟨result, n, subscription, called, before, l, hedit, -⟩ := exists_edit hset hd hbody hchecked
  have hresult := hedit.method? i
  rw [if_pos rfl, hleft] at hresult
  obtain rfl := Option.some.inj hresult
  refine ⟨i, d, body, result, hset, hm, hbody, by rw [hstays]; rfl, n, subscription, called, before, l,
    hedit.code, fun p => l.serves, ?_⟩
  rw [Module.callsFor_eq hset hm hbody]
  exact l.length_announcedNames ((v.2.pairwise_anchors body.code).imp Nat.ne_of_lt) fun p =>
    PropertyPlan.le_length_of_mem_anchors

/-- A run that succeeds is reckoned, whatever was done in front of it. -/
theorem reckoned_walk (hmarks : ∀ j, w.module.isWoven j = marked j)
    (hkept : ∀ j d, m.method? j = some d → marked j = false → w.module.method? j = some d)
    (hthere : ∀ v ∈ vs, ∀ i, v.2.property.setter = some i → ∃ d, m.method? i = some d)
    (hrun : vs.foldlM (step options resolver) (s, w) = some (s', w')) :
    ∃ edited, Reckoned options resolver m marked vs edited s w s' w' := by
  -- by induction on the visits, with the marks that the module
  -- has in front of each as the invariant
  induction vs generalizing marked s w with
  | nil =>
    obtain ⟨rfl, rfl⟩ := Prod.mk.inj (Option.some.inj hrun)
    exact ⟨[], .nil m marked s w⟩
  | cons v rest ih =>
    have hthere' : ∀ x ∈ rest, ∀ i, x.2.property.setter = some i → ∃ d, m.method? i = some d :=
      fun x hx => hthere x (List.mem_cons_of_mem _ hx)
    have hsame : isMarked w.module v.2.property = v.2.property.setter.any marked := by
      rw [isMarked_eq, funext hmarks]
    rw [List.foldlM_cons] at hrun
    obtain ⟨⟨s₁, w₁⟩, hstep, hrest⟩ := Option.bind_eq_some_iff.mp hrun
    rcases step_cases hstep with ⟨hmarked, rfl, rfl⟩ | ⟨hunmarked, woven, u, i, hchecked, hset, rfl, rfl⟩
    · obtain ⟨edited, hreckoned⟩ := ih hmarks hkept hthere' hrest
      exact ⟨edited, hreckoned.skipped hmarked (hsame.symm.trans hmarked)⟩
    · have hunwoven := hsame.symm.trans hunmarked
      have hi : marked i = false := by rwa [hset, Option.any_some] at hunwoven
      obtain ⟨d, hm⟩ := hthere v List.mem_cons_self i hset
      obtain ⟨d', body, hd, hbody⟩ := exists_body_of_checked hset hchecked
      obtain rfl := Option.some.inj (hd.symm.trans (hkept i d hm hi))
      obtain ⟨hcalls, hentries⟩ := checkedSetter_accounts hset hd hbody hchecked
      obtain ⟨e, hu, hleft, hwoven⟩ := Course.mark_checked hset hchecked
      have hmarks' : ∀ j, (Workpiece.mark u i).module.isWoven j
          = (marked j || v.2.property.setter == some j) := by
        intro j
        have hmark : (Workpiece.mark u i).module.isWoven j = _ := Module.isWoven_addAttribute_eq hu j
        rw [hmark, isWoven_checkedSetter hchecked, hmarks, hset, Bool.or_comm]
        by_cases hji : j = i
        · simp [hji]
        · simp [hji, Ne.symm hji]
      have hkept' : ∀ j d, m.method? j = some d → (marked j || v.2.property.setter == some j) = false →
          (Workpiece.mark u i).module.method? j = some d := by
        intro j d hj hmarked
        rw [Bool.or_eq_false_iff, hset] at hmarked
        exact Course.method?_mark_ne hset hchecked (hkept j d hj hmarked.1) (by simpa using hmarked.2)
      obtain ⟨edited, hreckoned⟩ := ih hmarks' hkept' hthere' hrest
      -- the setter is marked from now on, so it is not edited again and stays as it was left
      have hnotMem : i ∉ edited := fun hmem =>
        absurd ((hreckoned.course.unmarked hmem).symm.trans hwoven) Bool.false_ne_true
      have hstays := hreckoned.course.method?_of_notMem hnotMem hleft
      exact ⟨i :: edited, hreckoned.cons hunmarked hunwoven hset hchecked
        (hcalls.trans (Module.callsFor_eq hset hm hbody).symm) hentries
        (announced_of_checked hset hm hd hbody hchecked hleft hstays)⟩

/-- The marks behind a course are those in front of it and those of the setters that it wove. -/
theorem Course.isWoven_iff (h : Course options resolver w vs edited w') (j : MethodId) :
    w'.module.isWoven j = true ↔ j ∈ edited ∨ w.module.isWoven j = true := by
  induction h with
  | done => simp
  | skipped _ _ ih => exact ih
  | @woven _ w₁ _ _ _ _ i _ _ hset hchecked _ ih =>
    obtain ⟨e, hu, -, -⟩ := mark_checked hset hchecked
    have hmark : (Workpiece.mark w₁ i).module.isWoven j = _ := Module.isWoven_addAttribute_eq hu j
    rw [ih, hmark, isWoven_checkedSetter hchecked, Bool.or_eq_true, decide_eq_true_eq, List.mem_cons,
      or_left_comm, or_assoc]

end Weaving

namespace Weaver

variable {w w' : Weaver} {plans : List TypePlan} {m m' : Module} {s : WeaveSummary}

/-- **What a summary accounts for.** Behind a pass that succeeds, over plans whose setters are methods of the
module, the summary counts the types; every listed property is woven or skipped; the woven ones are as many
as setters got the mark; the handlers are as many as methods were given to types; and the notifications are,
added up over the properties that were woven, the anchors in the code before the pass times the targets that
the setter does not announce by itself, which is the number of announcements that were inserted. -/
theorem summary_accounts (hrun : w.weave plans m = (.ok s, w', m'))
    (hthere : ∀ v ∈ TypePlan.listed plans, ∀ i, v.2.property.setter = some i → ∃ d, m.method? i = some d) :
    let woven := TypePlan.unwoven m.isWoven (TypePlan.listed plans)
    s.types = plans.length
      ∧ s.woven + s.skipped = (TypePlan.listed plans).length
      ∧ (∃ marked : List MethodId, marked.Nodup ∧ woven.map (·.2.property.setter) = marked.map some
        ∧ s.woven = marked.length ∧ ∀ i, i ∈ marked ↔ m'.isWoven i = true ∧ m.isWoven i = false)
      ∧ (s.handlers + m.methodEntries = m'.methodEntries ∧ ∀ t d, m.type? t = some d →
        ∃ added, m'.type? t = some { d with methods := d.methods ++ added })
      ∧ s.notifications = (woven.map m.callsFor).sum
      ∧ ∀ v ∈ woven, Weaving.Announced w.options w.resolver m m' v := by
  obtain ⟨piece, hall, rfl⟩ := exists_run hrun
  have hanswer := @Weaving.answer_plans w.options w.resolver plans {} ⟨m, w.capabilities⟩
  rw [show plans.foldlM (Weaving.type w.options w.resolver) {} = Weaving.all w.options w.resolver plans from rfl,
    hall] at hanswer
  obtain ⟨⟨s₁, w₁⟩, hwalk, heq⟩ := Option.map_eq_some_iff.mp hanswer.symm
  obtain ⟨rfl, rfl⟩ := Prod.mk.inj heq
  obtain ⟨edited, hcourse, hsetters, hwoven, htotal, hhandlers, hnotifications, hannounced⟩ :=
    Weaving.reckoned_walk (fun _ => rfl) (fun _ _ hd _ => hd) hthere hwalk
  simp only [Nat.zero_add] at hwoven htotal hhandlers hnotifications
  refine ⟨Nat.zero_add _, htotal, ⟨edited, hcourse.nodup, hsetters, hwoven, fun i => ?_⟩,
    ⟨hhandlers, fun t d hd => ?_⟩, hnotifications, hannounced⟩
  · rw [hcourse.isWoven_iff]
    constructor
    · exact fun hi => ⟨.inl hi, hcourse.unmarked hi⟩
    · rintro ⟨hi | hmarked, hunmarked⟩
      · exact hi
      · exact absurd (hunmarked.symm.trans hmarked) Bool.false_ne_true
  · obtain ⟨added, hd', -⟩ := hcourse.confined.lists t d hd
    exact ⟨added, hd'⟩

open Weaving.Chain in
/-- A setter with two stores whose property is listed twice is woven once, with an announcement behind each of
the stores and a handler. -/
theorem summary_accounts_chain :
    pass.1 = .ok { types := 1, woven := 1, skipped := 1, notifications := 2, handlers := 1 }
      ∧ (TypePlan.unwoven Chain.module.isWoven (TypePlan.listed [repeated 2])).length = 1
      ∧ pass.2.2.methodEntries = Chain.module.methodEntries + 1
      ∧ Weaving.Announced {} Chain.resolver Chain.module pass.2.2 (repeated 2, Chain.property) := by
  have hthere : ∀ v ∈ TypePlan.listed [repeated 2], ∀ i, v.2.property.setter = some i →
      ∃ d, Chain.module.method? i = some d := by
    have hsetters : ∀ v ∈ TypePlan.listed [repeated 2], v.2.property.setter = some ⟨1⟩ := by decide +kernel
    intro v hv i hi
    obtain rfl := Option.some.inj ((hsetters v hv).symm.trans hi)
    exact ⟨_, rfl⟩
  obtain ⟨-, -, -, ⟨hhandlers, -⟩, -, hannounced⟩ := summary_accounts pass_eq hthere
  refine ⟨congrArg Prod.fst pass_eq, by decide +kernel, hhandlers.symm.trans (Nat.add_comm 1 _), hannounced _ ?_⟩
  decide +kernel

end Weaver

end SetterLoom
