import SetterLoom.Proofs.Machine.Bubbling
import SetterLoom.Proofs.Weave.Children
import SetterLoom.Proofs.Weave.Returned
import SetterLoom.Proofs.Weave.Stored

/-!
# Changes bubble up behind a pass

An assignment announces the targets of its property on the receiver. Each announcement calls the handlers that the
receiver has, and a handler announces the targets of a property of a parent, and so on upwards. The order is that of
direct calls: what a handler does comes before the next handler, and before the next target.

* `BlockContext.bubbles_of_parts`: code that announces targets one after the other.
* `Wired.heeds`: a call of a handler, by induction on how deep calls may still be nested.
* `Bubbled.assigned`, `Bubbled.wired_of_uses`: one assignment behind a pass, and any number of them.
* `Weaver.changes_bubble`: the notices of an assignment behind any number of others.
-/

namespace SetterLoom
set_option autoImplicit false

/-- What announcements in a module need: the machine makes event arguments, whose name is not kept behind a
changed event, and the methods of some names only read. -/
structure Module.Announcing (m : Module) (readers : Set String) : Prop where
  apart : m.NameApart
  prepares : ∃ i d type field, m.Prepares i d type field Machine.withRuntimeMembers.hooks
  reads : m.Reads readers

/-- Nothing is woven into the setters of the type but notifications: no hooks, and no dirty flag. -/
structure TypePlan.Bare (type : TypePlan) (options : Options) : Prop where
  hooks : options.changeHooks = false ∨ type.hooks = []
  dirty : options.dirtyFlag = false ∨ type.dirtySetter = none

namespace BlockContext

variable {ctx : BlockContext} {m : Module} {readers : Set String} {target : Property}

/-! ## Code that announces -/

/-- The getters of the targets only read, if the invoker takes values. -/
def ReadsTargets (ctx : BlockContext) (m : Module) (readers : Set String) : Prop :=
  ctx.type.invoker.valueForm?.isSome → ∀ target ∈ ctx.property.targets, ∀ i d, target.getter = some i →
    m.method? i = some d → d.name ∈ readers

theorem hookFor?_of_bare (h : ctx.type.Bare ctx.options) (called : List String) (target : Property) :
    ctx.hookFor? called target = none := by
  unfold hookFor? TypePlan.hook?
  rcases h.hooks with hoff | hnone
  · rw [hoff, Bool.false_and, if_neg Bool.false_ne_true]
  · rw [hnone, List.find?_nil, ite_self]

theorem dirtySetter?_of_bare (h : ctx.type.Bare ctx.options) : ctx.dirtySetter? = none := by
  unfold dirtySetter?
  rcases h.dirty with hoff | hnone
  · rw [hoff, Bool.false_and, Bool.false_and, if_neg Bool.false_ne_true]
  · rw [hnone, ite_self]

private theorem reads_plain {op : Op} (hcode : op.code ≠ .stfld ∧ op.code ≠ .initobj ∧ op.code ≠ .newobj
    ∧ op.code ≠ .ldftn) (hmethod : ∀ u, op.operand ≠ .method u) : op.Reads m readers :=
  ⟨hcode, fun u _ hu => absurd hu (hmethod u)⟩

theorem reads_readOps (hgetter : ∀ i d, target.getter = some i → m.method? i = some d → d.name ∈ readers)
    (boxed : Bool) (slot : UInt16) : ∀ op ∈ ctx.readOps target boxed slot, op.Reads m readers := by
  intro op hop
  unfold readOps at hop
  simp only [List.append_assoc, List.mem_append, List.mem_singleton, List.mem_map, Option.mem_toList] at hop
  rcases hop with rfl | ⟨i, hi, rfl⟩ | hop | rfl
  · exact reads_plain ⟨nofun, nofun, nofun, nofun⟩ nofun
  · refine ⟨⟨nofun, nofun, nofun, nofun⟩, fun u d hu hd => ?_⟩
    cases hu
    exact hgetter i d hi hd
  · split at hop
    · rw [List.mem_singleton] at hop
      subst hop
      exact reads_plain ⟨nofun, nofun, nofun, nofun⟩ nofun
    · cases hop
  · exact reads_plain ⟨nofun, nofun, nofun, nofun⟩ nofun

namespace ReadsTargets

variable (h : ctx.ReadsTargets m readers)
include h

theorem reads_valueOps (htarget : target ∈ ctx.property.targets) (after : UInt16) :
    ∀ op ∈ ctx.valueOps target after, op.Reads m readers := by
  unfold valueOps
  cases hform : ctx.type.invoker.valueForm? with
  | none => exact fun _ hop => absurd hop List.not_mem_nil
  | some boxed =>
    have hsome : ctx.type.invoker.valueForm?.isSome = true := by rw [hform]; rfl
    exact reads_readOps (h hsome target htarget) boxed after

theorem reads_entryOps (hbare : ctx.type.Bare ctx.options) (called : List String) (before : String → Bool → UInt16) :
    ∀ op ∈ ctx.entryOps (ctx.targetsReadings called ctx.property.targets) before, op.Reads m readers := by
  intro op hop
  obtain ⟨reading, hreading, hop⟩ := List.mem_flatMap.mp hop
  obtain ⟨target, htarget, hmem⟩ := List.mem_flatMap.mp (mem_of_mem_firstReadings hreading)
  obtain ⟨boxed, hboxed, rfl⟩ := List.mem_map.mp hmem
  have hsome : ctx.type.invoker.valueForm?.isSome = true := by
    unfold targetForms at hboxed
    rw [hookFor?_of_bare hbare] at hboxed
    cases hinvoker : ctx.type.invoker <;> simp_all [invokerForms, Invoker.valueForm?]
  exact reads_readOps (h hsome target htarget) boxed _ op hop

end ReadsTargets

/-- Without hooks and a dirty flag, the code behind a store announces the targets that the setter does not
announce by itself. -/
theorem changeOps_of_bare (h : ctx.type.Bare ctx.options) (called : List String) (before : String → Bool → UInt16)
    {after : List AfterSlots} (hlen : after.length = ctx.property.targets.length) :
    ∃ parts, ctx.changeOps called before after = parts.flatten
      ∧ List.Forall₂ ctx.AnnouncesTarget
        (ctx.property.targets.filter fun target => !ctx.property.announces target.name) parts := by
  -- for every list of targets with a slot for each, since the
  -- announcements go through both side by side
  have hall : ∀ (targets : List Property) (after : List AfterSlots), after.length = targets.length →
      ∃ parts, ctx.targetsOps called before targets after = parts.flatten
        ∧ List.Forall₂ ctx.AnnouncesTarget
          (targets.filter fun target => !ctx.property.announces target.name) parts := by
    intro targets
    induction targets with
    | nil => exact fun after _ => ⟨[], rfl, .nil⟩
    | cons target rest ih =>
      intro after hlen
      obtain ⟨slots, after, rfl⟩ := List.exists_cons_of_length_eq_add_one hlen
      obtain ⟨parts, hops, hparts⟩ := ih after (Nat.succ.inj hlen)
      have hfront : ctx.targetsOps called before (target :: rest) (slots :: after)
          = ctx.targetOps called before target slots ++ parts.flatten := by
        rw [← hops]
        rfl
      rw [hfront]
      unfold targetOps
      rw [hookFor?_of_bare h, Option.elim_none, List.nil_append]
      by_cases hannounces : ctx.property.announces target.name
      · rw [if_pos hannounces, List.filter_cons_of_neg (by simpa using hannounces)]
        exact ⟨parts, rfl, hparts⟩
      · rw [if_neg hannounces, List.filter_cons_of_pos (by simpa using hannounces)]
        exact ⟨_ :: parts, rfl, .cons ⟨before, slots.call, rfl⟩ hparts⟩
  obtain ⟨parts, hops, hparts⟩ := hall ctx.property.targets after hlen
  refine ⟨parts, ?_, hparts⟩
  unfold changeOps dirtyFlagOps
  rw [dirtySetter?_of_bare h, hops]
  rfl

theorem straight_of_parts {targets : List Property} {parts : List (List Op)}
    (hparts : List.Forall₂ ctx.AnnouncesTarget targets parts) : ∀ op ∈ parts.flatten, op.Straight := by
  intro op hop
  obtain ⟨part, hpart, hop⟩ := List.mem_flatten.mp hop
  obtain ⟨target, -, before, after, rfl⟩ := AnnouncesTarget.of_mem hparts hpart
  exact (unlabelled_announceOps target before after op hop).1.working.1

section Announced

variable {names : Token → List String} {b s t : Machine} {events : List TraceEvent} {d : Method} {bound : Nat}
  {f g : Frame} {r : HeapRef} {type : Token} {fields : TokenMap Value}
  (hannouncing : m.Announcing readers) (hgetters : ctx.ReadsTargets m readers)
  (hannounces : ctx.type.invoker.Announces m Machine.withRuntimeMembers.hooks type)
  (hb : b.hooks = Machine.withRuntimeMembers.hooks) (hsound : b.heap.Sound m)
  (hr : b.heap.get? r = some (.object type fields))
  (hheeds : ∀ n < bound, ∀ j ∈ b.heap.handlers m r, b.Heeds m names (Action.invokeAt m n) j)
include hannouncing hgetters hannounces hb hsound hr hheeds

theorem bubbles_of_announce (htarget : target ∈ ctx.property.targets) {ops : List Op}
    (hops : ctx.AnnouncesTarget target ops) (hs : b.Adds m s events) (hthis : f.arguments[0]? = some (.ref r))
    (hruns : (⟨m, d⟩ : Site).Runs (Action.invokeAt m bound) ops f s g t) :
    s.Bubbles m names [(r, target.name)] t := by
  obtain ⟨before, after, rfl⟩ := hops
  rw [announceOps_eq] at hruns
  obtain ⟨h, u, hread, hraise⟩ := Site.runs_append.mp hruns
  have hsu : s.Adds m u [] :=
    hannouncing.reads.runs (hgetters.reads_valueOps htarget after) (hs.hooks.trans hb) hread
  have hbu := hs.trans hsu
  have hthis : h.arguments[0]? = some (.ref r) := by rw [hread.since.2.arguments, hthis]
  obtain ⟨x, y, hx, hy⟩ := values_of_raise hthis hraise
  obtain ⟨e, _, he, -, -, -, hraises⟩ := hannounces.method
  obtain ⟨z, arguments, -, hz, -, hannounced, hcalls⟩ := callsRaiser_raiseOps (c := ⟨m, d⟩) bound
    (hbu.heap r _ hr) hthis target ((hbu.hooks.trans hb).symm ▸ hannounces) hx hy he
  obtain ⟨-, -, v, hcall⟩ := (hcalls g t).mp hraise
  have hsz := hsu.trans (hz hannouncing.apart)
  obtain ⟨i, k, args, field, hprepares⟩ := hannouncing.prepares
  cases bound with
  | zero => cases (Prod.mk.inj hcall).1
  | succ bound =>
    have hraised := Action.raiser_bubbles hannouncing.apart (hb.symm ▸ hprepares) hsound
      (hb.symm ▸ hraises) (hheeds bound (Nat.lt_succ_self _)) (hs.trans hsz) hannounced hcall
    exact hsz.bubbles.trans (hs.lists hsound).1 hraised

theorem bubbles_of_parts {targets : List Property} (htargets : ∀ target ∈ targets, target ∈ ctx.property.targets)
    {parts : List (List Op)} (hparts : List.Forall₂ ctx.AnnouncesTarget targets parts) (hs : b.Adds m s events)
    (hthis : f.arguments[0]? = some (.ref r))
    (hruns : (⟨m, d⟩ : Site).Runs (Action.invokeAt m bound) parts.flatten f s g t) :
    s.Bubbles m names (targets.map fun target => (r, target.name)) t := by
  -- each part is run in a state that adds to the one in which the handlers were read
  induction hparts generalizing f s events with
  | nil =>
    obtain ⟨-, rfl⟩ := Site.runs_nil.mp hruns
    exact (Machine.Adds.refl m _).bubbles
  | cons hpart _ ih =>
    obtain ⟨h, u, hfirst, hrest⟩ := Site.runs_append.mp hruns
    have hannounced := bubbles_of_announce hannouncing hgetters hannounces hb hsound hr hheeds
      (htargets _ List.mem_cons_self) hpart hs hthis hfirst
    obtain ⟨_, hadds, -⟩ := id hannounced
    exact hannounced.trans (hs.lists hsound).1
      (ih (fun target htarget => htargets target (List.mem_cons_of_mem _ htarget)) (hs.trans hadds)
        (by rw [hfirst.since.2.arguments, hthis]) hrest)

end Announced

end BlockContext

/-! ## Handlers of visited properties -/

/-- The handler calls the method that announces the targets of a visited property, on an object of whose type the
invoker is called. -/
inductive Wire (visits : List (TypePlan × PropertyPlan)) (m : Module) (names : Token → List String) (h : Heap) :
    Invocation → Prop
  | handler {ctx : BlockContext} {p : HeapRef} {type : Token} {fields : TokenMap Value} {k : MethodId} {d : Method}
    (visited : (ctx.type, ctx.property) ∈ visits) (object : h.get? p = some (.object type fields))
    (announces : ctx.type.invoker.Announces m Machine.withRuntimeMembers.hooks type)
    (delegate : m.delegate? ctx.property.property = some k) (method : m.method? k = some d)
    (name : d.name = delegateName ctx.property.property.name) (handles : ctx.Handles d)
    (listed : names d.token = ctx.property.targets.map (·.name)) :
    Wire visits m names h ⟨some p, d.token⟩

/-- The states in which objects have only handlers of visited properties. -/
structure Wired (visits : List (TypePlan × PropertyPlan)) (m : Module) (names : Token → List String) (s : Machine) :
    Prop where
  tame : (Restraint.free m).Tame s
  sound : s.heap.Sound m
  handlers : ∀ c, ∀ i ∈ s.heap.handlers m c, Wire visits m names s.heap i

namespace Wired

variable {visits : List (TypePlan × PropertyPlan)} {m : Module} {names : Token → List String} {s t : Machine}
  {i : Invocation} {events : List TraceEvent}

theorem wire_later {h h' : Heap} (hwire : Wire visits m names h i)
    (hlater : ∀ r type fields, h.get? r = some (.object type fields) →
      ∃ fields', h'.get? r = some (.object type fields')) : Wire visits m names h' i := by
  cases hwire with
  | handler visited object announces delegate method name handles listed =>
    obtain ⟨_, object⟩ := hlater _ _ _ object
    exact .handler visited object announces delegate method name handles listed

theorem adds (hs : Wired visits m names s) (h : s.Adds m t events) : Wired visits m names t where
  tame := Restraint.tame_adds hs.tame h
  sound := (h.lists hs.sound).1
  handlers c i hi := by
    rw [(h.lists hs.sound).2 c] at hi
    exact wire_later (hs.handlers c i hi) fun r _ fields hr => ⟨fields, h.heap r _ hr⟩

theorem hands {given : Invocation → Prop} (hs : Wired visits m names s) (h : s.Hands m given t)
    (hgiven : ∀ i, given i → Wire visits m names t.heap i) : Wired visits m names t where
  tame := h.tame
  sound := h.sound
  handlers c i hi := by
    rcases h.handlers c i hi with hold | hnew
    · exact wire_later (hs.handlers c i hold) fun r _ _ hr => h.later.object hr
    · exact hgiven i hnew

theorem entered (hs : Wired visits m names s) {k : MethodId} {d : Method} (hd : m.method? k = some d) :
    Wired visits m names { s.entered ⟨m, d⟩ k with depth := (s.entered ⟨m, d⟩ k).depth + 1 } where
  tame := (hs.tame.learn hd).update rfl rfl rfl
  sound := hs.sound
  handlers := hs.handlers

variable {readers : Set String} (hannouncing : m.Announcing readers) (hunique : m.UniqueTokens)
  (hgetters : ∀ ctx : BlockContext, (ctx.type, ctx.property) ∈ visits → ctx.ReadsTargets m readers)
include hannouncing hunique hgetters

theorem heeds (bound : Nat) : ∀ ⦃b⦄, Wired visits m names b → ∀ c, ∀ i ∈ b.heap.handlers m c,
    b.Heeds m names (Action.invokeAt m bound) i := by
  induction bound using Nat.strong_induction_on with
  | h bound ih =>
    intro b hb c i hi events k arguments v s t hs hk hcall
    have hwired := hb.adds hs
    cases hb.handlers c i hi with
    | @handler ctx p type fields k' d visited object announces delegate method name handles listed =>
      -- the method that is known by the token is the handler
      obtain ⟨e, he, htoken⟩ := hwired.tame.functions _ _ hk
      obtain rfl := hunique k k' e d he method htoken
      obtain rfl := Option.some.inj (he.symm.trans method)
      obtain ⟨body, parts, hbody, hops, hparts⟩ := handles.code
      cases bound with
      | zero => cases (Prod.mk.inj hcall).1
      | succ bound =>
        have hrun := Action.body_of_invokeAt he (by rw [hbody]; rfl) hwired.tame.hooks hcall
        obtain ⟨x, hends, rfl⟩ := Site.ends_of_runBody hbody handles.isInstance hrun
        have hcode : body.code.map (·.op) = (parts.flatten ++ [.nop]) ++ [.ret] := by
          rw [hops, List.append_assoc]
          rfl
        have hstraight : ∀ op ∈ parts.flatten ++ [Op.nop], op.Straight := by
          intro op hop
          rcases List.mem_append.mp hop with hop | hop
          · exact BlockContext.straight_of_parts hparts op hop
          · rw [List.mem_singleton.mp hop]
            exact ⟨nofun, nofun, nofun, nofun⟩
        obtain ⟨g, u, hruns, hret⟩ := (Site.ends_straight hcode hstraight).mp hends
        obtain ⟨h, y, hruns, hnop⟩ := Site.runs_append.mp hruns
        have hentered := hwired.entered he
        have hbubbles := BlockContext.bubbles_of_parts hannouncing (hgetters ctx visited) announces
          hentered.tame.hooks hentered.sound (hs.heap p _ object)
          (fun n hn j hj => ih n (by omega) hentered p j hj) (fun _ h => h) hparts (.refl m _) rfl hruns
        obtain ⟨_, hadds, -⟩ := id hbubbles
        have hend : y.Adds m u [] := hannouncing.reads.runs (fun op hop => by
          rw [List.mem_singleton.mp hop]
          exact ⟨⟨nofun, nofun, nofun, nofun⟩, nofun⟩) (hadds.hooks.trans hentered.tame.hooks) hnop
        obtain ⟨-, rfl⟩ := hret.of_ret rfl
        have hbody := ((hbubbles.trans hentered.sound hend.bubbles).spent 1).ascend
        have hall := ((Machine.Adds.refl m s).entered he).bubbles.trans hwired.sound hbody
        have hnotices : Invocation.notices names ⟨some p, e.token⟩
            = [] ++ (ctx.property.targets.map (fun target => (p, target.name)) ++ []) := by
          unfold Invocation.notices
          rw [listed]
          simp
        rw [hnotices]
        exact hall

end Wired

/-! ## A woven setter -/

/-- A run of the woven code of a setter that only stores its argument gives the notices of the targets that it does
not announce by itself, and what comes of them. -/
theorem Layout.bubbles_of_ends {ctx : BlockContext} {subscription : Option (Field × Event × MethodId)}
    {called : List String} {before : String → Bool → UInt16} {anchors : List Nat} {code : Stream}
    {l : Layout ctx subscription called anchors before} {m : Module} {field : Field} {serial count : Nat}
    {readers : Set String} {visits : List (TypePlan × PropertyPlan)} {names : Token → List String} {d : Method}
    {bound : Nat} {f : Frame} {s t : Machine} {v x : Value} {r : HeapRef}
    (hannouncing : m.Announcing readers) (hunique : m.UniqueTokens)
    (hgetters : ∀ ctx : BlockContext, (ctx.type, ctx.property) ∈ visits → ctx.ReadsTargets m readers)
    (hctx : (ctx.type, ctx.property) ∈ visits) (hbare : ctx.type.Bare ctx.options)
    (hreaches : ∀ g event handler, subscription = some (g, event, handler) →
      ∃ token, ctx.Reaches (Restraint.free m) g event handler token)
    (hbodiless : ∀ i d (a : EventAccessor), m.method? i = some d → d.name = a.name → d.body = none)
    (hapart : ¬ m.BehindEvent field.token)
    (hops : code.map (·.op) = [.ldarg 0, .ldarg 1, .stfld field, .ret]) (hanchors : anchors = [3])
    (hlabels : ((l.injected code).map (·.label)).Perm ((List.range' serial count).map .drawn))
    (hfresh : ∀ i ∈ code, ∀ n, serial ≤ n → i.label ≠ .drawn n)
    (hgives : ∀ {h : Heap} {type : Token} {fields : TokenMap Value} {i : Invocation},
      h.get? r = some (.object type fields) →
      ctx.type.invoker.Announces m Machine.withRuntimeMembers.hooks type → Gives m subscription r i →
        Wire visits m names h i)
    (hannounces : ∀ type fields, t.heap.get? r = some (.object type fields) →
      ctx.type.invoker.Announces m Machine.withRuntimeMembers.hooks type)
    (hs : Wired visits m names s) (hthis : f.arguments = [.ref r, x])
    (hends : (⟨m, d⟩ : Site).Ends (Action.invokeAt m bound) (l.weave code) Site.idle 0 f s v t) :
    ∃ w, w.notices = s.notices ∧ Wired visits m names w
      ∧ w.Bubbles m names ((ctx.property.targets.filter fun target => !ctx.property.announces target.name).map
        fun target => (r, target.name)) t := by
  subst hanchors
  obtain ⟨i₀, i₁, i₂, i₃, rfl, -⟩ := Stream.eq_of_four hops
  obtain ⟨type, fields, w, g, k, y, after, hhands, hr, hargs, hlen, hruns, rfl⟩ :=
    l.stored_of_ends hreaches hops hlabels hfresh hannouncing.reads
      (l.prologue_ops ▸ (hgetters ctx hctx).reads_entryOps hbare called before) hbodiless hapart hthis hs.tame
      hs.sound hends
  obtain ⟨fields', hr'⟩ := hruns.since.1.object hr
  have htype := hannounces type fields' hr'
  have hw : Wired visits m names w := hs.hands hhands fun i hi => hgives hr htype hi
  obtain ⟨parts, hchange, hparts⟩ := BlockContext.changeOps_of_bare hbare called before hlen
  rw [hchange] at hruns
  refine ⟨w, hhands.notices, hw, Machine.Bubbles.spent ?_ 1⟩
  exact BlockContext.bubbles_of_parts hannouncing (hgetters ctx hctx) htype hw.tame.hooks hw.sound hr
    (fun n _ j hj => hw.heeds hannouncing hunique hgetters n r j hj)
    (fun target htarget => List.mem_of_mem_filter htarget) hparts (.refl m w) (by rw [hargs]; rfl) hruns

/-! ## Behind a pass -/

/-- The names that the method with the token announces if it is the handler of a visited property: those of the
targets of the property. -/
def Module.handled (m : Module) (visits : List (TypePlan × PropertyPlan)) (token : Token) : List String :=
  (visits.find? fun v => ((m.delegate? v.2.property).bind m.method?).any (·.token == token)).elim []
    fun v => v.2.targets.map (·.name)

namespace Bubbled

/-- Properties whose setters only store their argument are not kept behind changed events, and the machine answers
for the accessors of the events. -/
structure Declared (visits : List (TypePlan × PropertyPlan)) (m : Module) : Prop
    extends Weaving.Prepared m visits where
  unmarked : ∀ v ∈ visits, ∀ f, v.2.Auto f m → ∀ i, v.2.property.setter = some i → m.isWoven i = false
  fresh : ∀ v ∈ visits, ∀ f, v.2.Auto f m → ∀ i d body, v.2.property.setter = some i → m.method? i = some d →
    d.body = some body → ∀ k ∈ body.code, ∀ n, m.serial ≤ n → k.label ≠ .drawn n
  behind : ∀ v ∈ visits, ∀ f, v.2.Auto f m → ¬ m.EventToken f.token
  accessors : ∀ t d, m.type? t = some d → ∀ e ∈ d.events, m.isEventOf handlerTypeName e = true →
    ∀ (a : EventAccessor) i, a.method e = some i → ∃ d, m.method? i = some d ∧ d.Accesses ∧ d.name = a.name
  bodiless : ∀ i d (a : EventAccessor), m.method? i = some d → d.name = a.name → d.body = none

/-- The module behind a pass: the resolver answers rightly on the way there, the machine makes event arguments,
and getters whose values an invoker takes only read. -/
structure Surrounded (visits : List (TypePlan × PropertyPlan)) (m₀ m : Module) (resolver : Resolver)
    (readers : Set String) : Prop extends resolver.Serves m₀ m fun _ => True, m.Announcing readers where
  getters : ∀ v ∈ visits, v.1.invoker.valueForm?.isSome → ∀ target ∈ v.2.targets, ∀ i d,
    target.getter = some i → m.method? i = some d → d.name ∈ readers

/-- The property has a setter that only stores its argument, and the machine answers for its invoker on the
object. -/
structure Assigned (visits : List (TypePlan × PropertyPlan)) (m₀ m : Module) (h : Heap) (r : HeapRef)
    (v : TypePlan × PropertyPlan) : Prop where
  visited : v ∈ visits
  auto : ∃ f, v.2.Auto f m₀
  announces : ∀ type fields, h.get? r = some (.object type fields) →
    v.1.invoker.Announces m Machine.withRuntimeMembers.hooks type

theorem Assigned.before {visits : List (TypePlan × PropertyPlan)} {m₀ m : Module} {s t : Machine} {r : HeapRef}
    {v : TypePlan × PropertyPlan} (h : Assigned visits m₀ m t.heap r v) (hlater : s.Later t) :
    Assigned visits m₀ m s.heap r v := by
  refine ⟨h.visited, h.auto, fun type fields hr => ?_⟩
  obtain ⟨fields', hr'⟩ := hlater.object hr
  exact h.announces type fields' hr'

section Pass

variable {options : Options} {resolver : Resolver} {visits : List (TypePlan × PropertyPlan)} {m₀ : Module}
  {w : Workpiece} {readers : Set String} {v : TypePlan × PropertyPlan}
  (hdeclared : Declared visits m₀) (hsurrounded : Surrounded visits m₀ w.module resolver readers)
  (hhanded : Weaving.Handed options resolver visits m₀ w)
  (hwoven : ∀ v ∈ visits, ∀ i, v.2.property.setter = some i → w.module.isWoven i = true)
  (hbare : ∀ v ∈ visits, v.1.Bare options)
include hdeclared hsurrounded hhanded

/-- A new handler announces the targets of its property. -/
theorem handled_eq {h : MethodId} {d : Method} (hv : v ∈ visits)
    (hdelegate : w.module.delegate? v.2.property = some h) (hnew : m₀.method? h = none)
    (hd : w.module.method? h = some d) : w.module.handled visits d.token = v.2.targets.map (·.name) := by
  have hpointed : ∀ u : TypePlan × PropertyPlan, w.module.delegate? u.2.property = some h →
      ∃ i, u.2.property.setter = some i ∧ h ∈ w.module.pointed i := by
    intro u hu
    obtain ⟨i, hset, hhead⟩ := Option.bind_eq_some_iff.mp hu
    exact ⟨i, hset, List.mem_of_head? hhead⟩
  unfold Module.handled
  cases hfind : visits.find? fun v =>
      ((w.module.delegate? v.2.property).bind w.module.method?).any (·.token == d.token) with
  | none =>
    have hnone := List.find?_eq_none.mp hfind v hv
    rw [hdelegate, Option.bind_some, hd] at hnone
    simp at hnone
  | some u =>
    -- only one property has the handler
    have hu := List.find?_some hfind
    rw [Option.any_eq_true] at hu
    obtain ⟨e, he, htoken⟩ := hu
    obtain ⟨k, hk, he⟩ := Option.bind_eq_some_iff.mp he
    obtain rfl := hsurrounded.unique k h e d he hd (by simpa using htoken)
    obtain ⟨i, hset, hi⟩ := hpointed u hk
    obtain ⟨j, hset', hj⟩ := hpointed v hdelegate
    obtain rfl := hhanded.own i j k hnew hi hj
    rw [hdeclared.once u (List.mem_of_find?_eq_some hfind) v hv i hset hset']
    rfl

include hwoven hbare

theorem assigned {s t : Machine} {r : HeapRef} {x : Value}
    (hs : Wired visits w.module (w.module.handled visits) s) (hv : Assigned visits m₀ w.module t.heap r v)
    (hrun : (Action.setProperty w.module r v.2.property x).run.run s = (.ok (), t)) :
    Wired visits w.module (w.module.handled visits) t
      ∧ ∃ out, t.notices = s.notices ++ out
        ∧ Bubbling (t.heap.follow w.module (w.module.handled visits))
          ((v.2.targets.filter fun target => !v.2.announces target.name).map fun target => (r, target.name))
          out := by
  obtain ⟨field, hauto⟩ := hv.auto
  obtain ⟨i, d₀, hset, hd₀, hname, hstores⟩ := id hauto.setter
  obtain ⟨y, bound, hcalled⟩ := Action.invokeAt_of_setProperty hset hrun
  obtain ⟨d, hd⟩ := hhanded.stage.old i d₀ hd₀
  have hmarked := hwoven v hv.visited i hset
  have hunmarked := hdeclared.unmarked v hv.visited field hauto i hset
  cases hhanded.stage.kinds i d hd with
  -- the setter of a listed property is marked, so it is neither as it was nor a handler
  | kept old =>
    rw [Module.isWoven_eq hd, ← Module.isWoven_eq old, hunmarked] at hmarked
    cases hmarked
  | handler _ isNew => rw [isNew] at hd₀; cases hd₀
  | @woven d₁ u n body result subscription called before hu setter old body_eq l laced =>
    obtain rfl := Option.some.inj (old.symm.trans hd₀)
    obtain rfl := hdeclared.once u hu v hv.visited i setter hset
    obtain ⟨body', hbody, hops⟩ := hstores.code
    obtain rfl := Option.some.inj (body_eq.symm.trans hbody)
    have hreaches : ∀ g event handler, subscription = some (g, event, handler) → ∃ token,
        (⟨options, resolver, n, u.1, u.2⟩ : BlockContext).Reaches (Restraint.free w.module) g event handler
          token := by
      intro g event handler hsome
      obtain ⟨-, -, ⟨e, -, he, -⟩, n', hn, hpublic⟩ := laced.follows g event handler hsome
      exact ⟨e.token, fun i hi => (hsurrounded.equals _ i laced.grown laced.onward hi).2,
        fun i hi => (hsurrounded.makes _ i laced.grown laced.onward hi).2,
        ⟨e, he, rfl, Restraint.pointable_free _⟩, fun a i hi =>
          Children.accessor_of_public hhanded hdeclared.accessors hdeclared.bodiless hn hpublic hi⟩
    have hapart : ¬ w.module.BehindEvent field.token := by
      rintro ⟨t, e, he, htoken⟩
      exact hdeclared.behind u hu field hauto (htoken ▸ Children.eventToken_of_line hhanded he)
    -- a handler that the subscription gives is the one that the setter points to
    have hgives : ∀ {h : Heap} {type : Token} {fields : TokenMap Value} {j : Invocation},
        h.get? r = some (.object type fields) →
        u.1.invoker.Announces w.module Machine.withRuntimeMembers.hooks type →
          Layout.Gives w.module subscription r j → Wire visits w.module (w.module.handled visits) h j := by
      rintro h type fields j hr hannounces ⟨g, event, handler, e, rfl, he, rfl⟩
      obtain ⟨-, hnew, ⟨e', n', he', hname, hhandles⟩, -⟩ := laced.follows g event handler rfl
      obtain rfl := Option.some.inj (he'.symm.trans he)
      have hdelegate : w.module.delegate? u.2.property = some handler := by
        unfold Module.delegate?
        rw [hset, Option.bind_some, Module.pointed_eq hd rfl, laced.code]
        exact Layout.head?_pointed laced.anchored (pointed_of_stores hops)
      exact @Wire.handler _ _ _ _ ⟨options, resolver, n', u.1, u.2⟩ _ _ _ _ _
        hu hr hannounces hdelegate he hname hhandles
        (handled_eq hdeclared hsurrounded hhanded hu hdelegate hnew he)
    -- the call runs the woven code one level deeper
    have hran := Action.body_of_invokeAt hd rfl hs.tame.hooks hcalled
    obtain ⟨z, hends, rfl⟩ := Site.ends_of_runBody rfl (by exact hstores.isInstance) hran
    obtain ⟨count, hlabels⟩ := laced.labels
    rw [laced.code] at hends
    have hannounces : ∀ type fields, z.heap.get? r = some (.object type fields) →
        u.1.invoker.Announces w.module Machine.withRuntimeMembers.hooks type := hv.announces
    obtain ⟨q, hnotices, hq, events, hadds, hbubbling⟩ := l.bubbles_of_ends hsurrounded.toAnnouncing
      hsurrounded.unique (fun ctx hctx => hsurrounded.getters _ hctx) hu (hbare u hu) hreaches
      (Children.bodiless_behind hhanded hdeclared.bodiless) hapart hops
      (congrArg Prod.fst (Variables.anchors_auto hauto.backing hops)) hlabels
      (fun k hk num hnum => hdeclared.fresh u hu field hauto i _ body hset hd₀ body_eq k hk num
        (Nat.le_trans laced.grown.serial hnum))
      hgives hannounces (hs.entered hd) rfl hends
    have hz := hq.adds hadds
    refine ⟨⟨hz.tame.update rfl rfl rfl, hz.sound, hz.handlers⟩, _, ?_,
      Heap.follow_eq hq.sound hadds.lists ▸ hbubbling⟩
    rw [← show (s.entered ⟨w.module, _⟩ i).notices = s.notices from Machine.notices_push rfl rfl]
    exact hadds.notices.trans (congrArg (· ++ _) hnotices)

theorem wired_of_uses {s t u : Machine} {calls : List PropertyUse} (hcalls : PropertyUses w.module s calls t)
    (hassigns : ∀ a ∈ calls, ∃ v r x, a = .set r v.2.property x ∧ Assigned visits m₀ w.module u.heap r v)
    (hlater : t.Later u) (hs : Wired visits w.module (w.module.handled visits) s) :
    Wired visits w.module (w.module.handled visits) t := by
  induction hcalls with
  | done => exact hs
  | get =>
    obtain ⟨_, _, _, heq, -⟩ := hassigns _ List.mem_cons_self
    cases heq
  | set hsucceeds hmore ih =>
    obtain ⟨v, r, x, heq, hv⟩ := hassigns _ List.mem_cons_self
    cases heq
    exact ih (fun a ha => hassigns a (List.mem_cons_of_mem _ ha)) hlater
      (assigned hdeclared hsurrounded hhanded hwoven hbare hs (hv.before (hmore.later.trans hlater)) hsucceeds).1

end Pass

end Bubbled

/-! ## Nodes that hear each other -/

namespace Twins

open Children in
theorem child_of_auto {v : TypePlan × PropertyPlan} (hv : v ∈ TypePlan.listed forth) {f : Field}
    (h : v.2.Auto f module) : Child {} module v f := by
  obtain ⟨g, hg⟩ := child hv
  exact hg.follows.child h

theorem stored : Bubbled.Declared (TypePlan.listed forth) module where
  toPrepared := declared.toPrepared
  unmarked v hv f hf := declared.unmarked v hv f (child_of_auto hv hf)
  fresh v hv f hf := declared.fresh v hv f (child_of_auto hv hf)
  behind v hv f hf := declared.behind v hv f (child_of_auto hv hf)
  accessors := declared.accessors
  bodiless := declared.bodiless

theorem invoker {v : TypePlan × PropertyPlan} (hv : v ∈ TypePlan.listed forth) : v.1.invoker = .simple ⟨4⟩ := by
  rcases listed hv with rfl | rfl <;> rfl

theorem announcing : (pass forth).2.2.Announcing ∅ where
  apart := by
    rintro t field hrequire hfield ⟨u, e, he, htoken⟩
    obtain ⟨hsix, hname, hall⟩ : (pass forth).2.2.require Surface.eventArgs = .ok ⟨6⟩
        ∧ ((pass forth).2.2.type? ⟨6⟩).bind (·.field? Surface.nameField) = some Sapling.name
        ∧ ∀ o ∈ (pass forth).2.2.types.toList, ∀ d ∈ o, ∀ g ∈ d.fields, g.name = Surface.changedEvent →
          g.token ≠ Sapling.name.token := by
      decide +kernel
    obtain rfl := Except.ok.inj (hsix.symm.trans hrequire)
    obtain rfl := Option.some.inj (hname.symm.trans hfield)
    obtain ⟨_, d, g, hd, hg, hgname, hgtoken⟩ := Module.eventToken_of_line he
    exact hall _ (Module.mem_types hd) d rfl g hg hgname (hgtoken.trans htoken)
  prepares := by
    refine ⟨⟨7⟩, Sapling.method 37 Surface.constructor 1 ⟨6⟩ (some (Sapling.body
      [.ldarg 0, .ldarg 1, .stfld Sapling.name, .ret])),
      ⟨⟨16⟩, "System.ComponentModel", "PropertyChangedEventArgs", .classType, true, none, [], [Sapling.name],
        [⟨7⟩], [], [], []⟩, Sapling.name, ?_⟩
    exact ⟨⟨by decide +kernel, rfl, rfl, rfl, ⟨⟨6⟩, rfl, by decide +kernel, by decide +kernel⟩,
      ⟨_, rfl, rfl⟩, ⟨⟨6⟩, by decide +kernel, by decide +kernel⟩⟩, by decide +kernel,
      ⟨⟨6⟩, by decide +kernel, by decide +kernel⟩⟩
  reads := ⟨fun _ h => absurd h (Set.notMem_empty _), fun _ _ _ _ h => absurd h (Set.notMem_empty _)⟩

theorem heard : Bubbled.Surrounded (TypePlan.listed forth) module (pass forth).2.2 .standard ∅ where
  toServes := serves
  toAnnouncing := announcing
  getters v hv hform := by
    rw [invoker hv] at hform
    cases hform

theorem assignable {u : Machine} (hlater : nodes.Later u) {r : HeapRef}
    (hr : nodes.heap.get? r = some (.object ⟨11⟩ .empty)) {v : TypePlan × PropertyPlan}
    (hv : v ∈ TypePlan.listed forth) :
    Bubbled.Assigned (TypePlan.listed forth) module (pass forth).2.2 u.heap r v where
  visited := hv
  auto := by
    obtain ⟨f, hf⟩ := child hv
    exact ⟨f, hf.auto⟩
  announces type fields hu := by
    obtain ⟨_, hu'⟩ := hlater.object hr
    cases hu'.symm.trans hu
    rw [invoker hv]
    exact ⟨⟨Sapling.method 34 Surface.raiser 1 ⟨1⟩, Sapling.method 34 Surface.raiser 1 ⟨1⟩, by decide +kernel, rfl,
      rfl, rfl, by decide +kernel, rfl, RuntimeMember.raise.hook, by decide +kernel, rfl⟩, nofun⟩

/-- The third node is the twin of the first one and the child of the second one, which becomes the child of the
first one. -/
def layered : List PropertyUse := shared ++ [.set ⟨1⟩ Sapling.property (.ref ⟨2⟩)]

end Twins

/-- Nothing follows where nobody listens. -/
theorem Bubbling.unheard {follow : HeapRef → List Notice} {work : List Notice}
    (h : ∀ n ∈ work, follow n.1 = []) : Bubbling follow work work := by
  induction work with
  | nil => exact .nil
  | cons n rest ih =>
    have hinner : Bubbling follow (follow n.1) [] := by
      rw [h n List.mem_cons_self]
      exact .nil
    exact .cons hinner (ih fun k hk => h k (List.mem_cons_of_mem _ hk))

theorem Bubbling.iff {follow : HeapRef → List Notice} {work out : List Notice} (h : Bubbling follow work out)
    (out' : List Notice) : Bubbling follow work out' ↔ out' = out :=
  ⟨h.unique, fun heq => heq ▸ h⟩

open Bubbled in
/-- Behind a pass that weaves neither hooks nor dirty flags, an assignment to a property whose setter only stores its
argument gives the notices of the targets that the setter does not announce by itself, in order, each of them
followed by what the handlers of the object make of it: a handler is that of a property of a parent, and gives the
notices of all targets of the property on the parent, each of them followed in the same way. -/
theorem Weaver.changes_bubble {w w' : Weaver} {plans : List TypePlan} {m₀ m : Module} {summary : WeaveSummary}
    {readers : Set String} (hrun : w.weave plans m₀ = (.ok summary, w', m)) (hknows : w.capabilities.Knows m₀)
    (hdeclared : Declared (TypePlan.listed plans) m₀)
    (hsurrounded : Surrounded (TypePlan.listed plans) m₀ m w.resolver readers)
    (hbare : ∀ v ∈ TypePlan.listed plans, v.1.Bare w.options) {s t u : Machine} (hfresh : s.Fresh)
    {calls : List PropertyUse} (hcalls : PropertyUses m s calls t)
    (hassigns : ∀ a ∈ calls, ∃ v r x, a = .set r v.2.property x
      ∧ Assigned (TypePlan.listed plans) m₀ m u.heap r v)
    {v : TypePlan × PropertyPlan} {c : HeapRef} {x : Value}
    (hv : Assigned (TypePlan.listed plans) m₀ m u.heap c v)
    (hlast : (Action.setProperty m c v.2.property x).run.run t = (.ok (), u)) :
    (∀ r, ∀ i ∈ u.heap.handlers m r, ∃ v ∈ TypePlan.listed plans, ∃ p h d, i = ⟨some p, d.token⟩
        ∧ m.delegate? v.2.property = some h ∧ m.method? h = some d
        ∧ d.name = delegateName v.2.property.name
        ∧ i.notices (m.handled (TypePlan.listed plans)) = v.2.targets.map fun target => (p, target.name))
      ∧ ∃ out, u.notices = t.notices ++ out
        ∧ ∀ out', Bubbling (u.heap.follow m (m.handled (TypePlan.listed plans)))
          ((v.2.targets.filter fun target => !v.2.announces target.name).map fun target => (c, target.name)) out'
            ↔ out' = out := by
  obtain ⟨piece, rfl, hhanded, hwoven⟩ := handed_of_weave hrun hknows hdeclared.toPrepared
  -- nothing is stored in the fields of objects at the start, so nobody has a handler
  have hempty := Restraint.mirrored_of_empty (m := piece.module) ∅ hfresh.cell_eq_none
  have hstart : Wired (TypePlan.listed plans) piece.module (piece.module.handled (TypePlan.listed plans)) s := by
    refine ⟨Restraint.tame_of_fresh rfl hfresh, hempty.sound, fun c i hi => ?_⟩
    obtain ⟨_, hl, -⟩ := hempty.given c i hi
    cases hl
  have huses : PropertyUses piece.module t [.set c v.2.property x] u := .set hlast (.done u)
  have ht := wired_of_uses hdeclared hsurrounded hhanded hwoven hbare hcalls hassigns huses.later hstart
  obtain ⟨hu, out, hout, hbubbling⟩ := assigned hdeclared hsurrounded hhanded hwoven hbare ht hv hlast
  refine ⟨fun r i hi => ?_, out, hout, hbubbling.iff⟩
  cases hu.handlers r i hi with
  | @handler ctx p _ _ k d visited _ _ delegate method name _ listed =>
    refine ⟨_, visited, p, k, d, rfl, delegate, method, name, ?_⟩
    show [p].flatMap (fun p => (Module.handled _ _ d.token).map fun name => (p, name)) = _
    rw [listed]
    simp

open Twins in
/-- The third node loses its child: both parents hear of it, and one of them has a parent of its own. -/
theorem Weaver.changes_bubble_twins :
    ∃ t u, PropertyUses (pass forth).2.2 nodes layered t
      ∧ (Action.setProperty (pass forth).2.2 ⟨3⟩ Sapling.property .null).run.run t = (.ok (), u)
      ∧ ∀ out', Bubbling (u.heap.follow (pass forth).2.2 ((pass forth).2.2.handled (TypePlan.listed forth)))
        [(⟨3⟩, "Child")] out' ↔ out' = [(⟨3⟩, "Child"), (⟨1⟩, "Twin"), (⟨2⟩, "Child"), (⟨1⟩, "Child")] := by
  obtain ⟨t, huses, u, hlast, hnotices⟩ : ∃ t, PropertyUses (pass forth).2.2 nodes layered t
      ∧ ∃ u, (Action.setProperty (pass forth).2.2 ⟨3⟩ Sapling.property .null).run.run t = (.ok (), u)
        ∧ u.notices = t.notices ++ [(⟨3⟩, "Child"), (⟨1⟩, "Twin"), (⟨2⟩, "Child"), (⟨1⟩, "Child")] := by
    have hrun : (PropertyUse.run? (pass forth).2.2 layered nodes).any (fun t : Machine =>
        (PropertyUse.run? (pass forth).2.2 [.set ⟨3⟩ Sapling.property .null] t).any fun u : Machine =>
          decide (u.notices = t.notices ++ [(⟨3⟩, "Child"), (⟨1⟩, "Twin"), (⟨2⟩, "Child"), (⟨1⟩, "Child")]))
          = true := by
      decide +kernel
    obtain ⟨t, huses, hlast⟩ := PropertyUses.of_any hrun
    obtain ⟨u, hset, hnotices⟩ := PropertyUses.of_any hlast
    cases hset with
    | set hsucceeds hdone =>
      cases hdone
      exact ⟨t, huses, u, hsucceeds, of_decide_eq_true hnotices⟩
  have hmem : ({ Sapling.type with properties := [Sapling.plan, plan] }, Sapling.plan)
      ∈ TypePlan.listed forth := by
    simp [TypePlan.listed, forth]
  have hmem' : ({ Sapling.type with properties := [Sapling.plan, plan] }, plan) ∈ TypePlan.listed forth := by
    simp [TypePlan.listed, forth]
  have hlater := huses.later.trans (PropertyUses.set hlast (.done _)).later
  have hbare : ∀ v ∈ TypePlan.listed forth, v.1.Bare {} := by
    intro v hv
    rcases listed hv with rfl | rfl <;> exact ⟨.inr rfl, .inr rfl⟩
  obtain ⟨-, out, hout, hiff⟩ := Weaver.changes_bubble pass_forth (CapabilityCache.knows_empty _) stored heard hbare fresh
    huses (by
      intro a ha
      simp only [layered, shared, List.cons_append, List.nil_append, List.mem_cons, List.not_mem_nil,
        or_false] at ha
      rcases ha with rfl | rfl | rfl | rfl | rfl | rfl
      · exact ⟨_, _, _, rfl, assignable hlater rfl hmem⟩
      · exact ⟨_, _, _, rfl, assignable hlater rfl hmem'⟩
      · exact ⟨_, _, _, rfl, assignable hlater rfl hmem⟩
      · exact ⟨_, _, _, rfl, assignable hlater rfl hmem⟩
      · exact ⟨_, _, _, rfl, assignable hlater rfl hmem⟩
      · exact ⟨_, _, _, rfl, assignable hlater rfl hmem⟩)
    (assignable hlater (r := ⟨3⟩) rfl hmem) hlast
  obtain rfl := List.append_cancel_left (hout.symm.trans hnotices)
  exact ⟨t, u, huses, hlast, hiff⟩

/-! ## Where less or more is announced -/

/-- What was announced between the two states is what comes of announcing all targets of the property on the
object. -/
def Bubbled.Whole (visits : List (TypePlan × PropertyPlan)) (m : Module) (c : HeapRef) (plan : PropertyPlan)
    (t u : Machine) : Prop :=
  ∃ out, u.notices = t.notices ++ out
    ∧ Bubbling (u.heap.follow m (m.handled visits)) (plan.targets.map fun target => (c, target.name)) out

namespace Sapling

/-- A pass over one property of the nodes, without hooks and dirty flag. -/
def passed (m : Module) (invoker : Invoker) (plan : PropertyPlan) : Except Error WeaveSummary × Weaver × Module :=
  ({ options := { changeHooks := false, dirtyFlag := false } } : Weaver).weave
    [{ type := ⟨1⟩, invoker, properties := [plan] }] m

/-- Behind the pass, the second node becomes the child of the first one. -/
def given (m : Module) (invoker : Invoker) (plan : PropertyPlan) : Except Error Unit × Machine :=
  (Action.setProperty (passed m invoker plan).2.2 ⟨1⟩ property (.ref ⟨2⟩)).run.run machine

/-- The pass and the assignment succeed, and other notices are given than those of the targets. -/
structure Misses (m : Module) (invoker : Invoker) (plan : PropertyPlan) : Prop where
  woven : ∃ summary, (passed m invoker plan).1 = .ok summary
  assigned : (given m invoker plan).1 = .ok ()
  notices : ¬ Bubbled.Whole (TypePlan.listed [{ type := ⟨1⟩, invoker, properties := [plan] }])
    (passed m invoker plan).2.2 ⟨1⟩ plan machine (given m invoker plan).2

theorem not_whole {visits : List (TypePlan × PropertyPlan)} {m : Module} {plan : PropertyPlan} {u : Machine}
    (hunheard : u.heap.handlers m ⟨1⟩ = [])
    (hnotices : u.notices ≠ plan.targets.map fun target => (⟨1⟩, target.name)) :
    ¬ Bubbled.Whole visits m ⟨1⟩ plan machine u := by
  rintro ⟨out, hout, hbubbling⟩
  have hfollow : u.heap.follow m (m.handled visits) ⟨1⟩ = [] := by
    unfold Heap.follow
    rw [hunheard]
    rfl
  have hself : Bubbling (u.heap.follow m (m.handled visits)) (plan.targets.map fun target => (⟨1⟩, target.name))
      (plan.targets.map fun target => (⟨1⟩, target.name)) :=
    .unheard fun n hn => by
      obtain ⟨_, -, rfl⟩ := List.mem_map.mp hn
      exact hfollow
  rw [hself.unique hbubbling] at hout
  exact hnotices hout

theorem misses {m : Module} {invoker : Invoker} {plan : PropertyPlan} (summary : WeaveSummary)
    (h : (passed m invoker plan).1 = .ok summary ∧ (given m invoker plan).1 = .ok ()
      ∧ (given m invoker plan).2.heap.handlers (passed m invoker plan).2.2 ⟨1⟩ = []
      ∧ (given m invoker plan).2.notices ≠ plan.targets.map fun target => (⟨1⟩, target.name)) :
    Misses m invoker plan :=
  ⟨⟨summary, h.1⟩, h.2.1, not_whole h.2.2.1 h.2.2.2⟩

/-- The plan says that the setter announces the child by itself. -/
def known : PropertyPlan := { plan with announced := ["Child"] }

/-- The invoker has a body, which does nothing. -/
def muted : Module :=
  { module plain with
    methods := (module plain).methods.modify 4 (·.map fun d => { d with body := some (body [.ret]) }) }

/-- A property whose getter announces it. -/
def loud : Property := ⟨⟨22⟩, "Loud", ⟨1⟩, some ⟨8⟩, none, []⟩

/-- The invoker takes the values before and after the change. -/
def chatty : Module :=
  { module plain with
    types := (module plain).types.modify 1 (·.map fun d => { d with
      methods := d.methods ++ [⟨8⟩], properties := d.properties ++ [loud] })
    methods := (module plain).methods.modify 4 (·.map fun d => { d with
      params := List.replicate 3 ⟨"value", ⟨0⟩⟩ }) ++ #[some (method 38 "get_Loud" 0 ⟨1⟩ (some (body
        [.ldarg 0, .ldstr "Loud", .ldnull, .ldnull, .callvirt ⟨4⟩, .ldnull, .ret])) (some ⟨1⟩))] }

end Sapling

open Sapling in
/-- Nothing is announced for a target that the setter is said to announce, nor by an invoker with a body; and a
getter that is read for an invoker may announce something else. -/
theorem Weaver.changes_not_bubbled :
    Misses (module plain) (.simple ⟨4⟩) known ∧ Misses muted (.simple ⟨4⟩) plan
      ∧ Misses chatty (.beforeAfter ⟨4⟩) { plan with dependents := [loud] } := by
  exact ⟨misses { types := 1, woven := 1, notifications := 0, handlers := 1 } (by decide +kernel),
    misses { types := 1, woven := 1, notifications := 1, handlers := 1 } (by decide +kernel),
    misses { types := 1, woven := 1, notifications := 2, handlers := 1 } (by decide +kernel)⟩

end SetterLoom
