import SetterLoom.Proofs.Weave.Kinds
import SetterLoom.Proofs.Weave.Knows
import SetterLoom.Proofs.Weave.Renamed

/-!
# A setter woven in two modules

If a module grew in two ways, a setter that is still the old one is woven in both alike: it succeeds in both
or in none, the same is counted, and the code and the handler are the same but for the names that were
drawn.

* `Weaving.Worked`, `worked_setter`: what weaving a setter does to a module that grew.
* `setter_beside`, `checkedSetter_beside`: what it does to two of them.
-/

namespace SetterLoom
set_option autoImplicit false

namespace Module.Grown

variable {m m' m'' : Module}

theorem followed? (h : m.Grown m') (hevents : ∀ t d, m.type? t = some d → ∀ e ∈ d.events, ∀ i ∈ e.methods,
      i.index < m.methods.size) (options : Options) (type : TypeId) (p : Property) :
    m'.followed? options type p = m.followed? options type p := by
  unfold Module.followed?
  rw [h.implements, h.implements, h.isSome_type?, h.publicEvent? hevents]

theorem containsCallTo (h : m.Grown m') (code : Stream) {name : String} (hname : Plain name) :
    m'.containsCallTo code name = m.containsCallTo code name := by
  unfold Module.containsCallTo
  refine congrArg (List.any code) (funext fun i => ?_)
  unfold callsNamed
  refine congrArg (_ && ·) (congrArg (Option.any · i.op.method?) (funext fun use => ?_))
  exact h.any_name hname use.method

end Module.Grown

/-- The plan of a type without the properties: what all of them share. -/
def TypePlan.bare (type : TypePlan) : TypePlan := { type with properties := [] }

namespace Weaving

variable {options : Options} {resolver : Resolver} {type type' : TypePlan} {plan : PropertyPlan}
  {m : Module} {w w' : Workpiece} {i : MethodId} {d : Method} {body : Body}

/-! ## What a setter follows -/

/-- The field and the event that a setter follows. -/
def subscribed (m : Module) (options : Options) (type : TypePlan) (plan : PropertyPlan) (stores : Bool) :
    Option (Field × Event) :=
  match plan.backing, stores with
  | some field, true => (m.followed? options type.type plan.property).map (field, ·)
  | _, _ => none

theorem subscription?_eq (hcoherent : w.module.Coherent) (hknows : w.capabilities.Knows w.module)
    (options : Options) (type : TypePlan) (plan : PropertyPlan) (stores : Bool) :
    ∃ capabilities : CapabilityCache, capabilities.Knows w.module
      ∧ (subscription? options type plan stores).run.run w
        = (.ok (subscribed w.module options type plan stores), { w with capabilities }) := by
  obtain ⟨hevent, hknows'⟩ := followedEvent?_eq hcoherent hknows options type.type plan.property
  unfold subscribed
  cases hbacking : plan.backing with
  | none =>
    refine ⟨w.capabilities, hknows, ?_⟩
    show subscription? options type plan stores w = _
    simp only [subscription?, hbacking]
  | some field =>
    cases stores with
    | false =>
      refine ⟨w.capabilities, hknows, ?_⟩
      show subscription? options type plan false w = _
      simp only [subscription?, hbacking]
    | true =>
      refine ⟨_, hknows', ?_⟩
      show subscription? options type plan true w = _
      simp only [subscription?, hbacking, hevent]

/-! ## What weaving a setter does to a module that grew -/

/-- Everything that is woven into the setter, and everything in its code, is in the module. -/
structure Grounded (m : Module) (type : TypePlan) (plan : PropertyPlan) : Prop where
  invoker : ∀ i ∈ type.invoker.methods, i.index < m.methods.size
  dirtySetter : ∀ i, type.dirtySetter = some i → i.index < m.methods.size
  hooks : ∀ hook ∈ type.hooks, hook.method.index < m.methods.size
  targets : ∀ target ∈ plan.targets, ∀ i ∈ target.methods, i.index < m.methods.size
  events : ∀ t d, m.type? t = some d → ∀ e ∈ d.events, ∀ i ∈ e.methods, i.index < m.methods.size
  code : ∀ i d body, plan.property.setter = some i → m.method? i = some d → d.body = some body →
    ∀ k ∈ body.code, k.Before m.serial m.methods.size

/-- The module grew, its setter is still the old one, and the answers that are kept are right. -/
structure Ready (m : Module) (plan : PropertyPlan) (w : Workpiece) : Prop where
  grown : m.Grown w.module
  knows : w.capabilities.Knows m
  setter : ∀ i, plan.property.setter = some i → w.module.method? i = m.method? i

theorem Grounded.setter_lt (h : Grounded m type plan) (hset : plan.property.setter = some i) :
    i.index < m.methods.size :=
  h.targets plan.property (List.mem_append_right _ List.mem_cons_self) i (by simp [Property.methods, hset])

theorem handler_of_finish {called : List String} {subscription : Option (Field × Event × MethodId)}
    {woven : WovenSetter}
    (hrun : finish options resolver type plan i body called subscription w = (.ok woven, w')) :
    woven.handler = subscription.map (·.2.2) := by
  obtain ⟨hresult, -⟩ := Prod.mk.inj hrun
  cases hedits : ((edits ⟨options, resolver, w.module, type, plan⟩ called (plan.anchors body.code).1
      subscription).run.run { body, serial := w.module.serial }).1 with
  | error e =>
    rw [hedits] at hresult
    cases hresult
  | ok x =>
    rw [hedits] at hresult
    obtain rfl := Except.ok.inj hresult
    rfl

theorem serial_le_finish (options : Options) (resolver : Resolver) (type : TypePlan) (plan : PropertyPlan)
    (i : MethodId) (body : Body) (called : List String)
    (subscription : Option (Field × Event × MethodId)) (w : Workpiece) :
    w.module.serial ≤ (finish options resolver type plan i body called subscription w).2.module.serial :=
  (adds_edits ⟨options, resolver, w.module, type, plan⟩ called (plan.anchors body.code).1 subscription
    { body, serial := w.module.serial }).serial

theorem serial_of_declareHandler {ctx : BlockContext} {h : MethodId} {n : Module}
    (hdeclare : ctx.declareHandler = .ok (h, n)) :
    (ctx.writeHandler.run.run { body := {}, serial := ctx.module.serial }).2.serial ≤ n.serial := by
  obtain ⟨object, arguments, draft, -, -, hwrite, hdeclared⟩ := declareHandler_ok hdeclare
  rw [hwrite]
  exact Nat.le_of_eq (congrArg (·.2.serial) hdeclared).symm

theorem declareHandler_new {ctx : BlockContext} {h : MethodId} {n : Module}
    (hdeclare : ctx.declareHandler = .ok (h, n)) :
    h = ⟨ctx.module.methods.size⟩ ∧ n.methods.size = ctx.module.methods.size + 1
      ∧ ∀ j, h ≠ j → n.method? j = ctx.module.method? j := by
  obtain ⟨object, arguments, draft, -, -, hwrite, hdeclared⟩ := declareHandler_ok hdeclare
  have hh := congrArg Prod.fst hdeclared
  have hn := congrArg Prod.snd hdeclared
  dsimp only at hh hn
  rw [hn]
  refine ⟨hh, ?_, fun j hj => ?_⟩
  · show ((ctx.module.methods.push _).modify _ _).size = _
    rw [Array.size_modify, Array.size_push]
  · rw [Module.method?_declareOn_eq, if_neg fun heq => hj (hh.trans heq.symm)]
    rfl

/-- What weaving a setter did to a module that grew from `m`. -/
structure Worked (m : Module) (plan : PropertyPlan) (w : Workpiece) (woven : WovenSetter) (w' : Workpiece) :
    Prop where
  grown : m.Grown w'.module
  knows : w'.capabilities.Knows m
  size : w'.module.methods.size = w.module.methods.size + woven.handler.toList.length
  handler : ∀ h, woven.handler = some h → h = ⟨w.module.methods.size⟩
  others : ∀ j, plan.property.setter ≠ some j → woven.handler ≠ some j →
    w'.module.method? j = w.module.method? j

private theorem worked_finish {called : List String} {subscription : Option (Field × Event × MethodId)}
    {woven : WovenSetter} (hd : w.module.method? i = some d) (hbody : d.body = some body)
    (hgrown : m.Grown w.module) (hknows : w.capabilities.Knows m)
    (hrun : finish options resolver type plan i body called subscription w = (.ok woven, w')) :
    m.Grown w'.module ∧ w'.capabilities.Knows m ∧ w'.module.methods.size = w.module.methods.size
      ∧ ∀ j, i ≠ j → w'.module.method? j = w.module.method? j := by
  have hserial := serial_le_finish options resolver type plan i body called subscription w
  obtain ⟨-, hstate⟩ := Prod.mk.inj hrun
  rw [← hstate]
  refine ⟨hgrown.setBody hd (by rw [hbody]; rfl) _ hserial, hknows, Array.size_modify .., fun j hj => ?_⟩
  exact Module.method?_setBody_of_ne w.module hj _

/-- Weaving a setter keeps the module one that grew, and the answers right. -/
theorem worked_setter {woven : WovenSetter} (hcoherent : m.Coherent) (hready : Ready m plan w)
    (hrun : (setter options resolver type plan).run.run w = (.ok woven, w')) :
    Worked m plan w woven w' := by
  -- a setter without code fails, and this one was woven
  obtain ⟨i, d, body, hset, hd, hbody⟩ : plan.HasBody w.module := by
    by_contra hnone
    obtain ⟨e, herror⟩ := setter_of_not_hasBody options resolver type hnone
    cases (Prod.mk.inj (hrun.symm.trans herror)).1
  obtain ⟨capabilities, hknows, hfollowed⟩ := subscription?_eq (hready.grown.coherent hcoherent)
    ((hready.grown.knows_iff _).mpr hready.knows) options type plan (plan.anchors body.code).2
  have hknows' := (hready.grown.knows_iff _).mp hknows
  obtain ⟨n, subscription, hsubscription, hfinish⟩ := finish_of_run hset hd hbody hfollowed hrun
  cases hevent : subscribed w.module options type plan (plan.anchors body.code).2 with
  | none =>
    rw [hevent] at hsubscription
    obtain ⟨rfl, rfl⟩ := hsubscription
    have hhandler := handler_of_finish hfinish
    obtain ⟨hgrown, hknows, hsize, hothers⟩ :=
      worked_finish (w := { w with capabilities }) hd hbody hready.grown hknows' hfinish
    refine ⟨hgrown, hknows, ?_, fun h hh => ?_, fun j hj _ => hothers j fun heq => hj (heq ▸ hset)⟩
    · rw [hhandler]
      exact hsize
    · rw [hhandler] at hh
      cases hh
  | some followed =>
    rw [hevent] at hsubscription
    obtain ⟨h, rfl, hdeclare⟩ := hsubscription
    obtain ⟨hnew, hsize, hothers⟩ := declareHandler_new hdeclare
    have hgrows := (BlockContext.exists_declareHandler hdeclare).1
    have hd' : n.method? i = some d := method?_declareHandler hdeclare hd
    have hhandler := handler_of_finish hfinish
    obtain ⟨hgrown, hknows, hsize', hothers'⟩ :=
      worked_finish (w := ⟨n, capabilities⟩) hd' hbody (hready.grown.trans hgrows) hknows' hfinish
    refine ⟨hgrown, hknows, ?_, fun k hk => ?_, fun j hj hj' => ?_⟩
    · rw [hhandler, hsize', hsize]
      rfl
    · rw [hhandler] at hk
      exact (Option.some.inj hk).symm.trans hnew
    -- what is neither the setter nor the new handler is as it was before either
    · rw [hothers' j fun heq => hj (heq ▸ hset)]
      exact hothers j fun heq => hj' (by rw [hhandler, ← heq]; rfl)

/-! ## Two modules that grew -/

variable {ρ : Renaming} {last : Nat}

theorem Grounded.beside {n n' : Module} (h : Grounded m type plan) (hsteady : resolver.Steady m)
    (hlike : type'.bare = type.bare) (hn : m.Grown n) (hn' : m.Grown n')
    (hkeeps : ρ.Keeps m.serial m.methods.size) :
    BlockContext.Beside ρ ⟨options, resolver, n, type, plan⟩ ⟨options, resolver, n', type', plan⟩ := by
  have hinvoker : type'.invoker = type.invoker := congrArg (·.invoker) hlike
  have hdirty : type'.dirtySetter = type.dirtySetter := congrArg (·.dirtySetter) hlike
  have hhooks : type'.hooks = type.hooks := congrArg (·.hooks) hlike
  have hmethod : type.invoker.method ∈ type.invoker.methods := by
    cases type.invoker <;> exact List.mem_cons_self
  refine {
    options := rfl
    property := rfl
    invoker := hinvoker
    dirtySetter := hdirty
    hook := fun target _ => ?_
    value := fun t => (hn'.map_isValue t).trans (hn.map_isValue t).symm
    generic := ?_
    objectType := (hsteady.objectType n' hn').trans (hsteady.objectType n hn).symm
    objectEquals := (hsteady.objectEquals n' hn').trans (hsteady.objectEquals n hn).symm
    handlerConstructor := (hsteady.handlerConstructor n' hn').trans (hsteady.handlerConstructor n hn).symm
    invoker_kept := fun i hi => hkeeps.method i (h.invoker i hi)
    dirtySetter_kept := fun i hi => hkeeps.method i (h.dirtySetter i hi)
    hooks_kept := fun hook hhook => hkeeps.method _ (h.hooks hook hhook)
    getters_kept := fun target htarget i hi =>
      hkeeps.method i (h.targets target htarget i (by simp [Property.methods, hi]))
    objectEquals_kept := fun i hi =>
      hkeeps.method i (hsteady.objectEquals_old i ((hsteady.objectEquals n hn).symm.trans hi))
    handlerConstructor_kept := fun i hi =>
      hkeeps.method i (hsteady.handlerConstructor_old i ((hsteady.handlerConstructor n hn).symm.trans hi)) }
  · have hplain := plain_hookName target.name
    show type'.hooks.find? _ = type.hooks.find? _
    rw [hhooks]
    exact congrArg (List.find? · type.hooks) (funext fun hook =>
      (hn'.any_name hplain _).trans (hn.any_name hplain _).symm)
  · have hlt := h.invoker _ hmethod
    exact (hn'.any_method? hlt _ fun _ => rfl).trans (hn.any_method? hlt _ fun _ => rfl).symm

/-- The handlers are declared in both modules or in none, and are the same but for the names. -/
theorem declareHandler_beside {ctx ctx' : BlockContext} (h : ctx.Beside ρ ctx')
    (htype : ctx'.type.type = ctx.type.type)
    (harguments : ctx'.resolver.eventArgsType ctx'.module = ctx.resolver.eventArgsType ctx.module)
    (hmoves : ρ.Moves ctx.module.serial ctx'.module.serial last)
    (hlast : (ctx.writeHandler.run.run { body := {}, serial := ctx.module.serial }).2.serial ≤ last) :
    (∃ e e', ctx.declareHandler = .error e ∧ ctx'.declareHandler = .error e')
      ∨ ∃ n n' k d token, ctx.declareHandler = .ok (⟨ctx.module.methods.size⟩, n)
        ∧ ctx'.declareHandler = .ok (⟨ctx'.module.methods.size⟩, n')
        ∧ n.serial = ctx.module.serial + k ∧ n'.serial = ctx'.module.serial + k
        ∧ n.method? ⟨ctx.module.methods.size⟩ = some d
        ∧ n'.method? ⟨ctx'.module.methods.size⟩ = some { ρ.entry d with token } := by
  have hstart : Draft.Renamed ρ ctx.module.serial ctx'.module.serial
      { body := {}, serial := ctx.module.serial } { body := {}, serial := ctx'.module.serial } :=
    ⟨rfl, ⟨0, rfl, rfl⟩, rfl, rfl, rfl, rfl⟩
  obtain ⟨hsame, hdrafts⟩ := BlockContext.renames_writeHandler h hmoves _ _ hstart hlast
  unfold BlockContext.declareHandler
  rw [h.objectType, harguments, h.property, htype]
  cases ctx.resolver.objectType ctx.module with
  | error e => exact .inl ⟨e, e, rfl, rfl⟩
  | ok object =>
    cases ctx.resolver.eventArgsType ctx.module with
    | error e => exact .inl ⟨e, e, rfl, rfl⟩
    | ok arguments =>
      cases hwrite : ctx.writeHandler.run.run { body := {}, serial := ctx.module.serial } with
      | mk result draft =>
        cases hwrite' : ctx'.writeHandler.run.run { body := {}, serial := ctx'.module.serial } with
        | mk result' draft' =>
          rw [hwrite, hwrite'] at hsame hdrafts
          cases hsame with
          | error e => exact .inl ⟨e, e, by simp only [bind, Except.bind], by simp only [bind, Except.bind]⟩
          | ok =>
            -- both handlers drew as many labels, and their bodies are the same but for the names
            obtain ⟨k, hk, hk'⟩ := hdrafts.serial
            let spec (body : Body) : MethodSpec :=
              { name := delegateName ctx.property.property.name
                params := [⟨"s", object⟩, ⟨"e", arguments⟩]
                body := some body }
            have hentry := Module.method?_declareOn_eq (spec draft.body) ctx.type.type
              { ctx.module with serial := draft.serial } ⟨ctx.module.methods.size⟩
            have hentry' := Module.method?_declareOn_eq (spec draft'.body) ctx.type.type
              { ctx'.module with serial := draft'.serial } ⟨ctx'.module.methods.size⟩
            rw [if_pos rfl] at hentry hentry'
            rw [hdrafts.body] at hentry'
            refine .inr ⟨_, _, k, _, _, ?_, ?_, hk, hk', hentry, hentry'⟩
            · simp only [bind, Except.bind]
              rfl
            · simp only [bind, Except.bind]
              rw [← hdrafts.body]
              rfl

/-- Two runs that come to the same end: both fail, or both weave the setter, the same is counted, as many
labels are drawn, and the code and the handler are the same but for the names. -/
def Beside (ρ : Renaming) (plan : PropertyPlan) (w w' : Workpiece)
    (run run' : Except Error WovenSetter × Workpiece) : Prop :=
  (∃ e e' u u', run = (.error e, u) ∧ run' = (.error e', u'))
    ∨ ∃ woven woven' u u' k, run = (.ok woven, u) ∧ run' = (.ok woven', u')
      ∧ woven'.notifications = woven.notifications ∧ woven'.handler = woven.handler.map ρ.method
      ∧ u.module.serial = w.module.serial + k ∧ u'.module.serial = w'.module.serial + k
      ∧ (∀ i, plan.property.setter = some i → u'.module.method? i = (u.module.method? i).map ρ.entry)
      ∧ ∀ h, woven.handler = some h → ∃ d token, u.module.method? h = some d
        ∧ u'.module.method? (ρ.method h) = some { ρ.entry d with token }

private theorem finish_beside (w w' : Workpiece) (hground : Grounded m type plan) (hsteady : resolver.Steady m)
    (hlike : type'.bare = type.bare) (hgrown : m.Grown w.module) (hgrown' : m.Grown w'.module)
    (hkeeps : ρ.Keeps m.serial m.methods.size) (hset : plan.property.setter = some i)
    (hd₀ : m.method? i = some d) (hbody : d.body = some body) (hd : w.module.method? i = some d)
    (hd' : w'.module.method? i = some d) (called : List String)
    (subscription : Option (Field × Event × MethodId))
    (hevent : ∀ s, subscription = some s → ∀ j ∈ s.2.1.methods, ρ.method j = j)
    (hmoves : ρ.Moves w.module.serial w'.module.serial last)
    (hlast : (finish options resolver type plan i body called subscription w).2.module.serial ≤ last) :
    (∃ e e' u u', finish options resolver type plan i body called subscription w = (.error e, u)
        ∧ finish options resolver type' plan i body called
          (subscription.map fun s => (s.1, s.2.1, ρ.method s.2.2)) w' = (.error e', u'))
      ∨ ∃ woven woven' u u' k,
        finish options resolver type plan i body called subscription w = (.ok woven, u)
        ∧ finish options resolver type' plan i body called
          (subscription.map fun s => (s.1, s.2.1, ρ.method s.2.2)) w' = (.ok woven', u')
        ∧ woven'.notifications = woven.notifications ∧ woven.handler = subscription.map (·.2.2)
        ∧ woven'.handler = woven.handler.map ρ.method
        ∧ u.module.serial = w.module.serial + k ∧ u'.module.serial = w'.module.serial + k
        ∧ u'.module.method? i = (u.module.method? i).map ρ.entry
        ∧ ∀ j, i ≠ j → u.module.method? j = w.module.method? j ∧ u'.module.method? j = w'.module.method? j := by
  have hold : ρ.body body = body := Renaming.body_of_before hkeeps (hground.code i d body hset hd₀ hbody)
  have hstart : Draft.Renamed ρ w.module.serial w'.module.serial
      { body, serial := w.module.serial } { body, serial := w'.module.serial } :=
    ⟨hold.symm, ⟨0, rfl, rfl⟩, rfl, rfl, rfl, rfl⟩
  have hbeside : BlockContext.Beside ρ ⟨options, resolver, w.module, type, plan⟩
      ⟨options, resolver, w'.module, type', plan⟩ := hground.beside hsteady hlike hgrown hgrown' hkeeps
  obtain ⟨hsame, hdrafts⟩ := renames_edits hbeside hmoves called (plan.anchors body.code).1 hevent _ _ hstart hlast
  -- the drafts of the two bodies are renamings of each other from start to end
  unfold finish
  dsimp only
  cases hedits : (edits ⟨options, resolver, w.module, type, plan⟩ called (plan.anchors body.code).1
      subscription).run.run { body, serial := w.module.serial } with
  | mk result draft =>
    cases hedits' : (edits ⟨options, resolver, w'.module, type', plan⟩ called (plan.anchors body.code).1
        (subscription.map fun s => (s.1, s.2.1, ρ.method s.2.2))).run.run
          { body, serial := w'.module.serial } with
    | mk result' draft' =>
      rw [hedits, hedits'] at hsame hdrafts
      cases hsame with
      | error e => exact .inl ⟨e, e, _, _, rfl, rfl⟩
      | ok =>
        obtain ⟨k, hk, hk'⟩ := hdrafts.serial
        refine .inr ⟨_, _, _, _, k, rfl, rfl, hdrafts.calls, rfl, ?_, hk, hk', ?_, fun j hj => ⟨?_, ?_⟩⟩
        · cases subscription <;> rfl
        · show (w'.module.setBody i (some draft'.body)).method? i
            = ((w.module.setBody i (some draft.body)).method? i).map ρ.entry
          rw [Module.method?_setBody hd', Module.method?_setBody hd, hdrafts.body]
          rfl
        · exact Module.method?_setBody_of_ne w.module hj _
        · exact Module.method?_setBody_of_ne w'.module hj _

theorem Grounded.subscribed (h : Grounded m type plan) {n : Module} (htype : type'.type = type.type)
    (hn : m.Grown n) (stores : Bool) :
    subscribed n options type' plan stores = subscribed m options type plan stores := by
  unfold Weaving.subscribed
  rw [htype, hn.followed? h.events]

theorem Grounded.followed_lt (h : Grounded m type plan) {stores : Bool} {field : Field} {event : Event}
    (hfollowed : Weaving.subscribed m options type plan stores = some (field, event)) :
    ∀ j ∈ event.methods, j.index < m.methods.size := by
  unfold Weaving.subscribed at hfollowed
  split at hfollowed
  · obtain ⟨found, hfound, heq⟩ := Option.map_eq_some_iff.mp hfollowed
    obtain ⟨-, rfl⟩ := Prod.mk.inj heq
    unfold Module.followed? at hfound
    split at hfound
    · obtain ⟨e, he, hmem⟩ := Module.exists_of_publicEvent? hfound
      exact h.events e.1 e.2 (Module.type?_of_mem_line he) found hmem
    · cases hfound
  · cases hfollowed

theorem calledHooks_grown {n : Module} (hn : m.Grown n) (plan : PropertyPlan)
    (code : Stream) : calledHooks n plan code = calledHooks m plan code := by
  unfold Weaving.calledHooks
  refine List.filter_congr fun name hname => ?_
  obtain ⟨target, -, rfl⟩ := List.mem_map.mp hname
  exact hn.containsCallTo code (plain_hookName target.name)

section Finished

variable {capabilities capabilities' : CapabilityCache} {called : List String}
  (hground : Grounded m type plan) (hsteady : resolver.Steady m) (hlike : type'.bare = type.bare)
  (hready : Ready m plan w) (hready' : Ready m plan w') (hkeeps : ρ.Keeps m.serial m.methods.size)
  (hset : plan.property.setter = some i) (hd₀ : m.method? i = some d) (hbody : d.body = some body)
include hground hsteady hlike hready hready' hkeeps hset hd₀ hbody

private theorem finish_beside_plain
    (hmoves : ρ.Moves w.module.serial w'.module.serial
      (finish options resolver type plan i body called none { w with capabilities }).2.module.serial) :
    Beside ρ plan w w' (finish options resolver type plan i body called none { w with capabilities })
      (finish options resolver type' plan i body called none { w' with capabilities := capabilities' }) := by
  have hfinish := finish_beside { w with capabilities } { w' with capabilities := capabilities' } hground hsteady
    hlike hready.grown hready'.grown hkeeps hset hd₀ hbody ((hready.setter i hset).trans hd₀)
    ((hready'.setter i hset).trans hd₀) called none (fun _ hnone => by cases hnone) hmoves (Nat.le_refl _)
  rcases hfinish with hfailed | ⟨woven, woven', u, u', k, hok, hok', hcalls, hnone, hsame, hk, hk', hset', -⟩
  · exact .inl hfailed
  · refine .inr ⟨woven, woven', u, u', k, hok, hok', hcalls, hsame, hk, hk', fun j hj => ?_, fun h hh => ?_⟩
    · obtain rfl := Option.some.inj (hset.symm.trans hj)
      exact hset'
    · rw [hnone] at hh
      cases hh

private theorem finish_beside_declared {field : Field} {event : Event} {h : MethodId} {n n' : Module}
    {e : Method} {token : Token} {k : Nat}
    (hdeclare : (⟨options, resolver, w.module, type, plan⟩ : BlockContext).declareHandler = .ok (h, n))
    (hdeclare' : (⟨options, resolver, w'.module, type', plan⟩ : BlockContext).declareHandler
      = .ok (ρ.method h, n'))
    (haccessors : ∀ j ∈ event.methods, ρ.method j = j)
    (hk : n.serial = w.module.serial + k) (hk' : n'.serial = w'.module.serial + k)
    (hentry : n.method? h = some e) (hentry' : n'.method? (ρ.method h) = some { ρ.entry e with token })
    (hmoves : ρ.Moves w.module.serial w'.module.serial
      (finish options resolver type plan i body called (some (field, event, h)) ⟨n, capabilities⟩).2.module.serial) :
    Beside ρ plan w w'
      (finish options resolver type plan i body called (some (field, event, h)) ⟨n, capabilities⟩)
      (finish options resolver type' plan i body called (some (field, event, ρ.method h))
        ⟨n', capabilities'⟩) := by
  obtain ⟨hnew, -, -⟩ := declareHandler_new hdeclare
  obtain ⟨hnew', -, -⟩ := declareHandler_new hdeclare'
  have hgrows := (BlockContext.exists_declareHandler hdeclare).1
  have hgrows' := (BlockContext.exists_declareHandler hdeclare').1
  have hfinish := finish_beside ⟨n, capabilities⟩ ⟨n', capabilities'⟩ hground hsteady hlike
    (hready.grown.trans hgrows) (hready'.grown.trans hgrows') hkeeps hset hd₀ hbody
    (method?_declareHandler hdeclare ((hready.setter i hset).trans hd₀))
    (method?_declareHandler hdeclare' ((hready'.setter i hset).trans hd₀)) called (some (field, event, h))
    (fun s hs j hj => haccessors j (by obtain rfl := Option.some.inj hs; exact hj))
    (by rw [hk, hk']; exact hmoves.shift k) (Nat.le_refl _)
  rcases hfinish with hfailed |
    ⟨woven, woven', u, u', k', hok, hok', hcalls, hsome, hsame, hk₁, hk₁', hset', hothers⟩
  · exact .inl hfailed
  · refine .inr ⟨woven, woven', u, u', k + k', hok, hok', hcalls, hsame, ?_, ?_, fun j hj => ?_, fun h' hh => ?_⟩
    · rw [hk₁, hk, Nat.add_assoc]
    · rw [hk₁', hk', Nat.add_assoc]
    · obtain rfl := Option.some.inj (hset.symm.trans hj)
      exact hset'
    · rw [hsome] at hh
      obtain rfl : h = h' := Option.some.inj hh
      -- the setter is older than both handlers
      have hlt := hground.setter_lt hset
      have hne : i ≠ h := by
        rintro rfl
        rw [hnew] at hlt
        exact absurd (Nat.lt_of_lt_of_le hlt hready.grown.count) (Nat.lt_irrefl _)
      have hne' : i ≠ ρ.method h := by
        intro heq
        rw [heq, hnew'] at hlt
        exact absurd (Nat.lt_of_lt_of_le hlt hready'.grown.count) (Nat.lt_irrefl _)
      exact ⟨e, token, (hothers h hne).1.trans hentry, (hothers _ hne').2.trans hentry'⟩

end Finished

/-- A setter that is still the old one is woven alike in two modules that grew, under any renaming that keeps
the old names and takes those that are drawn in the one to those that are drawn in the other. -/
theorem setter_beside (hcoherent : m.Coherent) (hground : Grounded m type plan)
    (hsteady : resolver.Steady m) (hlike : type'.bare = type.bare) (hready : Ready m plan w)
    (hready' : Ready m plan w') (hkeeps : ρ.Keeps m.serial m.methods.size)
    (hmoves : ∀ last, (∀ woven u, (setter options resolver type plan).run.run w = (.ok woven, u) →
      last ≤ u.module.serial) → ρ.Moves w.module.serial w'.module.serial last)
    (hhandler : (∀ woven u, (setter options resolver type plan).run.run w = (.ok woven, u) →
      woven.handler.isSome = true) → ρ.method ⟨w.module.methods.size⟩ = ⟨w'.module.methods.size⟩) :
    Beside ρ plan w w' ((setter options resolver type plan).run.run w)
      ((setter options resolver type' plan).run.run w') := by
  -- whether there is code does not depend on what the pass did,
  -- so both setters have some or neither
  by_cases hhas : plan.HasBody m
  · obtain ⟨i, d, body, hset, hd₀, hbody⟩ := hhas
    have hd : w.module.method? i = some d := (hready.setter i hset).trans hd₀
    have hd' : w'.module.method? i = some d := (hready'.setter i hset).trans hd₀
    obtain ⟨capabilities, -, hfollowed⟩ := subscription?_eq (hready.grown.coherent hcoherent)
      ((hready.grown.knows_iff _).mpr hready.knows) options type plan (plan.anchors body.code).2
    obtain ⟨capabilities', -, hfollowed'⟩ := subscription?_eq (hready'.grown.coherent hcoherent)
      ((hready'.grown.knows_iff _).mpr hready'.knows) options type' plan (plan.anchors body.code).2
    have hrun := setter_eq resolver hset hd hbody hfollowed
    have hrun' := setter_eq resolver hset hd' hbody hfollowed'
    have htype : type'.type = type.type := congrArg (·.type) hlike
    rw [hground.subscribed rfl hready.grown, calledHooks_grown hready.grown] at hrun
    rw [hground.subscribed htype hready'.grown, calledHooks_grown hready'.grown] at hrun'
    cases hevent : subscribed m options type plan (plan.anchors body.code).2 with
    | none =>
      rw [hevent, Option.elim_none] at hrun hrun'
      rw [hrun] at hmoves ⊢
      rw [hrun']
      exact finish_beside_plain hground hsteady hlike hready hready' hkeeps hset hd₀ hbody
        (hmoves _ fun woven u hok => Nat.le_of_eq (congrArg (·.2.module.serial) hok))
    | some followed =>
      obtain ⟨field, event⟩ := followed
      rw [hevent, Option.elim_some] at hrun hrun'
      have hbeside : BlockContext.Beside ρ ⟨options, resolver, w.module, type, plan⟩
          ⟨options, resolver, w'.module, type', plan⟩ :=
        hground.beside hsteady hlike hready.grown hready'.grown hkeeps
      have harguments := (hsteady.eventArgsType w'.module hready'.grown).trans
        (hsteady.eventArgsType w.module hready.grown).symm
      cases hdeclare : (⟨options, resolver, w.module, type, plan⟩ : BlockContext).declareHandler with
      | error e =>
        rw [hdeclare] at hrun
        -- nothing was woven, so the renaming takes as many labels as are asked for
        have hall : ∀ last, ρ.Moves w.module.serial w'.module.serial last := fun last =>
          hmoves last fun woven u hok => by
            rw [hrun] at hok
            cases (Prod.mk.inj hok).1
        rcases declareHandler_beside hbeside htype harguments (hall _) (Nat.le_refl _) with
          ⟨-, e', -, he'⟩ | ⟨n, n', k, d', token, hok, -⟩
        · rw [he'] at hrun'
          exact .inl ⟨_, _, _, _, hrun, hrun'⟩
        · rw [hdeclare] at hok
          cases hok
      | ok declared =>
        obtain ⟨h, n⟩ := declared
        rw [hdeclare] at hrun
        dsimp only at hrun
        have hnew := (declareHandler_new hdeclare).1
        have hdrafted := serial_of_declareHandler hdeclare
        have hfinal := serial_le_finish options resolver type plan i body (calledHooks m plan body.code)
          (some (field, event, h)) ⟨n, capabilities⟩
        have hM := hmoves _ fun woven u hok =>
          Nat.le_of_eq (congrArg (·.2.module.serial) (hrun.symm.trans hok))
        have hmoved : ρ.method h = ⟨w'.module.methods.size⟩ := by
          rw [hnew]
          refine hhandler fun woven u hok => ?_
          rw [handler_of_finish (hrun.symm.trans hok)]
          rfl
        rcases declareHandler_beside hbeside htype harguments hM (Nat.le_trans hdrafted hfinal) with
          ⟨e, -, he, -⟩ | ⟨n₁, n', k, d', token, hok, hok', hk, hk', hentry, hentry'⟩
        · rw [hdeclare] at he
          cases he
        obtain ⟨-, rfl⟩ := Prod.mk.inj (Except.ok.inj (hdeclare.symm.trans hok))
        rw [← hmoved] at hok' hentry'
        rw [hok'] at hrun'
        dsimp only at hrun'
        rw [hrun, hrun']
        exact finish_beside_declared hground hsteady hlike hready hready' hkeeps hset hd₀ hbody hdeclare hok'
          (fun j hj => hkeeps.method j (hground.followed_lt hevent j hj)) hk hk' (hnew ▸ hentry) hentry' hM
  · have hhas' : ∀ {w : Workpiece}, Ready m plan w → ¬ plan.HasBody w.module := by
      rintro w hready ⟨i, d, body, hset, hd, hbody⟩
      exact hhas ⟨i, d, body, hset, (hready.setter i hset).symm.trans hd, hbody⟩
    obtain ⟨e, he⟩ := setter_of_not_hasBody options resolver type (hhas' hready)
    obtain ⟨e', he'⟩ := setter_of_not_hasBody options resolver type' (hhas' hready')
    exact .inl ⟨e, e', w, w', he, he'⟩

/-! ## The check of the woven setter -/

theorem checkBranches_eq_ok {code : Stream} : checkBranches code = .ok () ↔ code.danglingBranch? = none := by
  unfold checkBranches
  cases code.danglingBranch? with
  | none => exact ⟨fun _ => rfl, fun _ => rfl⟩
  | some found => exact ⟨fun h => (by cases h), fun h => (by cases h)⟩

theorem checkedSetter_of_setter {woven : WovenSetter} {u : Workpiece}
    (hrun : (setter options resolver type plan).run.run w = (.ok woven, u)) :
    ∃ i body, plan.property.setter = some i ∧ (u.module.method? i).bind (·.body) = some body
      ∧ (checkedSetter options resolver type plan).run.run w
        = (if options.validation then (checkBranches body.code).map fun _ => woven else .ok woven, u) := by
  obtain ⟨i, d, body, hset, hd, hbody⟩ : plan.HasBody w.module := by
    by_contra hnone
    obtain ⟨e, herror⟩ := setter_of_not_hasBody options resolver type hnone
    cases (Prod.mk.inj (hrun.symm.trans herror)).1
  have hmethod : (w.module.method? i).bind (·.body) = some body := by rw [hd, Option.bind_some, hbody]
  obtain ⟨_, _, _, result, _, -, hresult, -⟩ := laidOut_setter hset hmethod hrun
  exact ⟨i, result, hset, hresult, checkedSetter_run hset hresult hrun⟩

theorem checkedSetter_of_error {e : Error} {u : Workpiece}
    (hrun : (setter options resolver type plan).run.run w = (.error e, u)) :
    (checkedSetter options resolver type plan).run.run w = (.error e, u) := by
  unfold checkedSetter
  rw [Steps.bind_run, hrun]

theorem setter_of_checked {woven : WovenSetter} {u : Workpiece}
    (hrun : (checkedSetter options resolver type plan).run.run w = (.ok woven, u)) :
    (setter options resolver type plan).run.run w = (.ok woven, u) := by
  cases hsetter : (setter options resolver type plan).run.run w with
  | mk result u₁ =>
    cases result with
    | error e => cases (Prod.mk.inj (hrun.symm.trans (checkedSetter_of_error hsetter))).1
    | ok woven₁ =>
      obtain ⟨i, body, -, -, hchecked⟩ := checkedSetter_of_setter hsetter
      obtain ⟨hresult, rfl⟩ := Prod.mk.inj (hrun.symm.trans hchecked)
      split at hresult
      · cases hbranches : checkBranches body.code with
        | error e =>
          rw [hbranches] at hresult
          cases hresult
        | ok x =>
          rw [hbranches] at hresult
          rw [Except.ok.inj hresult]
      · rw [Except.ok.inj hresult]

theorem worked_checkedSetter {woven : WovenSetter} (hcoherent : m.Coherent) (hready : Ready m plan w)
    (hrun : (checkedSetter options resolver type plan).run.run w = (.ok woven, w')) :
    Worked m plan w woven w' :=
  worked_setter hcoherent hready (setter_of_checked hrun)

theorem checkedSetter_beside (hcoherent : m.Coherent) (hground : Grounded m type plan)
    (hsteady : resolver.Steady m) (hlike : type'.bare = type.bare) (hready : Ready m plan w)
    (hready' : Ready m plan w') (hkeeps : ρ.Keeps m.serial m.methods.size)
    (hinjective : Function.Injective ρ.label)
    (hmoves : ∀ last, (∀ woven u, (checkedSetter options resolver type plan).run.run w = (.ok woven, u) →
      last ≤ u.module.serial) → ρ.Moves w.module.serial w'.module.serial last)
    (hhandler : (∀ woven u, (checkedSetter options resolver type plan).run.run w = (.ok woven, u) →
      woven.handler.isSome = true) → ρ.method ⟨w.module.methods.size⟩ = ⟨w'.module.methods.size⟩) :
    Beside ρ plan w w' ((checkedSetter options resolver type plan).run.run w)
      ((checkedSetter options resolver type' plan).run.run w') := by
  have hbeside := setter_beside hcoherent hground hsteady hlike hready hready' hkeeps
    (fun last hlast => hmoves last fun woven u hok => hlast woven u (setter_of_checked hok))
    (fun hsome => hhandler fun woven u hok => hsome woven u (setter_of_checked hok))
  rcases hbeside with ⟨e, e', u, u', hrun, hrun'⟩ | ⟨woven, woven', u, u', k, hrun, hrun', hcalls, hsame, hk, hk', hset, hentry⟩
  · exact .inl ⟨e, e', u, u', checkedSetter_of_error hrun, checkedSetter_of_error hrun'⟩
  · obtain ⟨i, body, hi, hbody, hchecked⟩ := checkedSetter_of_setter hrun
    obtain ⟨i', body', hi', hbody', hchecked'⟩ := checkedSetter_of_setter hrun'
    obtain rfl := Option.some.inj (hi.symm.trans hi')
    have hrenamed : body' = ρ.body body := by
      obtain ⟨d, hd, hdbody⟩ := Option.bind_eq_some_iff.mp hbody
      have hentry' : (Renaming.entry ρ d).body = some (ρ.body body) := by
        show d.body.map ρ.body = _
        rw [hdbody, Option.map_some]
      rw [hset i hi, hd, Option.map_some, Option.bind_some, hentry'] at hbody'
      exact (Option.some.inj hbody').symm
    -- labels are renamed one to one, so the checks agree
    have hbranches : checkBranches body'.code = .ok () ↔ checkBranches body.code = .ok () := by
      rw [checkBranches_eq_ok, checkBranches_eq_ok, hrenamed]
      exact Renaming.isNone_danglingBranch?_map hinjective body.code
    rw [hchecked, hchecked']
    by_cases hvalidation : options.validation = true
    · rw [if_pos hvalidation, if_pos hvalidation]
      cases hcheck : checkBranches body.code with
      | ok x =>
        rw [hbranches.mpr hcheck]
        exact .inr ⟨woven, woven', u, u', k, rfl, rfl, hcalls, hsame, hk, hk', hset, hentry⟩
      | error e =>
        cases hcheck' : checkBranches body'.code with
        | ok x =>
          rw [hbranches.mp hcheck'] at hcheck
          cases hcheck
        | error e' => exact .inl ⟨e, e', u, u', rfl, rfl⟩
    · rw [if_neg hvalidation, if_neg hvalidation]
      exact .inr ⟨woven, woven', u, u', k, rfl, rfl, hcalls, hsame, hk, hk', hset, hentry⟩

end Weaving

end SetterLoom
