import SetterLoom.Proofs.Machine.Reading
import SetterLoom.Proofs.Weave.Mirrored

/-!
# A woven setter in front of its announcements

Up to the announcements a woven setter reads values, takes its handler back, stores its argument and gives
the handler to the new value. This announces nothing, whatever other code there is in the module: the only
code that runs is that of getters that read.

* `Machine.Hands`: a later state in which nothing was announced and only given handlers were added.
* `BlockContext.Half.passes`: what a half of a setter that takes back or gives does at most.
* `Layout.stored_of_ends`: a run of the setter up to the announcements.
-/

namespace SetterLoom
set_option autoImplicit false

namespace Restraint

variable {m : Module} {s t : Machine} {events : List TraceEvent}

/-- Code that is held to nothing, with the hooks of the runtime. -/
def free (m : Module) : Restraint m where
  held _ := False
  callable _ := True
  hooks := Machine.withRuntimeMembers.hooks
  dispatched _ _ _ _ := trivial
  constructors _ _ := trivial
  runtime h hmem := by
    obtain ⟨member, rfl⟩ := Upkeep.hook_of_mem hmem
    cases member <;> exact ⟨_, rfl⟩
  events _ _ _ _ _ _ _ := not_false

theorem pointable_free (token : Token) : (free m).worlds.pointable token := fun _ _ _ _ => trivial

theorem trusts_free (v : Value) : (free m).Trusts v :=
  Worlds.values_refl (fun _ => rfl) (fun _ => not_false) pointable_free v

theorem tame_free (hhooks : s.hooks = Machine.withRuntimeMembers.hooks)
    (hfunctions : ∀ k i, s.functions.get? k = some i → ∃ d, m.method? i = some d ∧ d.token = k) :
    (free m).Tame s :=
  ⟨hhooks, hfunctions, fun _ o _ =>
    Worlds.objects_refl (fun _ => rfl) (fun _ => not_false) pointable_free o⟩

theorem tame_adds (hs : (free m).Tame s) (h : s.Adds m t events) : (free m).Tame t := by
  refine tame_free (h.hooks.trans hs.hooks) fun k i hi => ?_
  rcases h.learned k i hi with hold | hnew
  · exact hs.functions k i hold
  · exact hnew

end Restraint

namespace Machine

/-- The second state comes after the first one. Nothing was announced on the way, and the handlers that objects
have got are of the given kind. -/
structure Hands (m : Module) (given : Invocation → Prop) (s t : Machine) : Prop where
  later : s.Later t
  tame : (Restraint.free m).Tame t
  sound : t.heap.Sound m
  notices : t.notices = s.notices
  handlers : ∀ c, ∀ i ∈ t.heap.handlers m c, i ∈ s.heap.handlers m c ∨ given i

namespace Hands

variable {m : Module} {given : Invocation → Prop} {s t u : Machine}

theorem trans (h : s.Hands m given t) (h' : t.Hands m given u) : s.Hands m given u := by
  refine ⟨h.later.trans h'.later, h'.tame, h'.sound, h'.notices.trans h.notices, fun c i hi => ?_⟩
  rcases h'.handlers c i hi with hi | hi
  · exact h.handlers c i hi
  · exact .inr hi

theorem of_adds (hs : (Restraint.free m).Tame s) (hsound : s.heap.Sound m) (hlater : s.Later t)
    (h : s.Adds m t []) : s.Hands m given t := by
  refine ⟨hlater, Restraint.tame_adds hs h, (h.lists hsound).1, ?_, fun c i hi => .inl ?_⟩
  · rw [h.notices, List.filterMap_nil, List.append_nil]
  · rwa [← (h.lists hsound).2 c]

end Hands

end Machine

/-! ## A woven setter up to its announcements -/

namespace Site

variable {c : Site} {call : Call} {f h : Frame} {s u : Machine} {ops : List Op} {o v : Value} {field : Field}

theorem object_of_stfld (hruns : c.Runs call (.stfld field :: ops) ((f.push o).push v) s h u) :
    ∃ r type fields, o = .ref r ∧ s.heap.get? r = some (.object type fields) := by
  obtain ⟨g, t, hdoes, -⟩ := runs_cons.mp hruns
  have hstore : (c.storeField ((f.push o).push v) field).run.run { s with executed := s.executed + 1 }
      = (.ok (.next g), t) := hdoes.2
  obtain ⟨_, _, hpop, h₁⟩ := Steps.bind_ok.mp hstore
  obtain ⟨hpopped, rfl⟩ := Prod.mk.inj hpop
  obtain rfl := Except.ok.inj hpopped
  obtain ⟨_, _, hpop, h₂⟩ := Steps.bind_ok.mp h₁
  obtain ⟨hpopped, rfl⟩ := Prod.mk.inj hpop
  obtain rfl := Except.ok.inj hpopped
  obtain ⟨r, _, hobject, h₃⟩ := Steps.bind_ok.mp h₂
  obtain ⟨_, _, hset, -⟩ := Steps.bind_ok.mp h₃
  cases o with
  | ref q =>
    obtain ⟨hq, rfl⟩ := Prod.mk.inj hobject
    obtain rfl := Except.ok.inj hq
    cases hcheck : s.heap.checkStore q field.token with
    | ok =>
      obtain ⟨type, fields, hr⟩ := Heap.checkStore_eq_ok.mp hcheck
      exact ⟨q, type, fields, rfl, hr⟩
    | error e =>
      have hfailed : (Action.setField q field.token v).run.run { s with executed := s.executed + 1 }
          = (.error e, { s with executed := s.executed + 1 }) := by
        show Action.setField q field.token v _ = _
        simp only [Action.setField, hcheck]
      cases (Prod.mk.inj (hfailed.symm.trans hset)).1
  | void | int | null | struct | address | function => cases (Prod.mk.inj hobject).1

end Site

namespace BlockContext

/-- The code at the position has one half of a subscription there, or nothing. `given` are the handlers that
it may give to objects. -/
inductive Half (m : Module) (ctx : BlockContext) (given : HeapRef → Invocation → Prop) (code : Stream) (p : Nat) :
    List Instruction → Prop
  | nothing : Half m ctx given code p []
  | subscription {field : Field} {event : Event} {handler accessor : MethodId} {token : Token}
    {a : EventAccessor} {block : List Instruction} (P : ctx.Parts field handler accessor block)
    (reaches : ctx.Reaches (Restraint.free m) field event handler token) (accessor : a.method event = some accessor)
    (last : code.lastPosition? P.last = some (p + (P.test ++ P.branch :: P.inner).length))
    (gives : ∀ r, given r ⟨some r, token⟩) : Half m ctx given code p block

/-- A run that returns from the start of the half goes on behind it, with the frame as it was. -/
theorem Half.passes {m : Module} {ctx : BlockContext} {given : HeapRef → Invocation → Prop} {d : Method}
    {bound p : Nat} {code : Stream} {block rest : List Instruction} {f : Frame} {s t : Machine} {v : Value}
    {r : HeapRef} (hhalf : ctx.Half m given code p block)
    (hbodiless : ∀ i d (a : EventAccessor), m.method? i = some d → d.name = a.name → d.body = none)
    (hholds : code.Holds p (block ++ rest)) (hthis : f.arguments[0]? = some (.ref r))
    (hs : (Restraint.free m).Tame s) (hsound : s.heap.Sound m)
    (hends : (⟨m, d⟩ : Site).Ends (Action.invokeAt m bound) code Site.idle p f s v t) :
    ∃ u, (⟨m, d⟩ : Site).Ends (Action.invokeAt m bound) code Site.idle (p + block.length) f u v t
      ∧ s.Hands m (given r) u := by
  cases hhalf with
  | nothing => exact ⟨s, hends, .of_adds hs hsound (.refl s) (.refl m s)⟩
  | subscription P hreaches haccessor hlast hgives =>
    obtain ⟨q, -, -, u, hthis', -, hends, hlater, htame, hnotices, hoffered⟩ :=
      hreaches.passes rfl hbodiless haccessor P hholds hlast hs hsound hends
    cases hthis.symm.trans hthis'
    refine ⟨u, hends, hlater, htame, hoffered.sound, hnotices, fun c i hi => ?_⟩
    rcases hoffered.mem_handlers hi with hold | rfl
    · exact .inl hold
    · exact .inr (hgives r)

end BlockContext

namespace Layout

/-- The handler that a setter with the subscription gives to the values of an object. -/
def Gives (m : Module) (subscription : Option (Field × Event × MethodId)) (r : HeapRef) (i : Invocation) : Prop :=
  ∃ field event handler d, subscription = some (field, event, handler) ∧ m.method? handler = some d
    ∧ i = ⟨some r, d.token⟩

variable {ctx : BlockContext} {subscription : Option (Field × Event × MethodId)} {called : List String}
  {before : String → Bool → UInt16} {l : Layout ctx subscription called [3] before} {i₀ i₁ i₂ i₃ : Instruction}
  {m : Module} {field : Field} {serial count : Nat} {readers : Set String}
  (hreaches : ∀ g event handler, subscription = some (g, event, handler) →
    ∃ token, ctx.Reaches (Restraint.free m) g event handler token)
  (hops : [i₀, i₁, i₂, i₃].map (·.op) = [.ldarg 0, .ldarg 1, .stfld field, .ret])
  (hlabels : ((l.injected [i₀, i₁, i₂, i₃]).map (·.label)).Perm ((List.range' serial count).map .drawn))
  (hfresh : ∀ i ∈ [i₀, i₁, i₂, i₃], ∀ n, serial ≤ n → i.label ≠ .drawn n)
include hreaches hops hlabels hfresh

theorem halves_auto :
    ctx.Half m (Gives m subscription) (l.weave [i₀, i₁, i₂, i₃]) (l.start [i₀, i₁, i₂, i₃] 2) l.unsubscribe
      ∧ ctx.Half m (Gives m subscription) (l.weave [i₀, i₁, i₂, i₃]) (l.start [i₀, i₁, i₂, i₃] 3)
        l.subscribe := by
  cases subscription with
  | none =>
    have hunsubscribe : l.unsubscribe = [] := l.unsubscribe_ops
    have hsubscribe : l.subscribe = [] := l.subscribe_ops
    rw [hunsubscribe, hsubscribe]
    exact ⟨.nothing, .nothing⟩
  | some followed =>
    obtain ⟨g, event, handler⟩ := followed
    obtain ⟨add, remove, hadd, hremove, ⟨P, hlastP⟩, ⟨Q, hlastQ⟩⟩ :=
      l.parts_auto (stores_auto hops) hlabels hfresh
    obtain ⟨token, hreaches⟩ := hreaches g event handler rfl
    obtain ⟨d, hd, rfl, -⟩ := hreaches.handler
    have hgives : ∀ r, Gives m (some (g, event, handler)) r ⟨some r, d.token⟩ := fun r =>
      ⟨g, event, handler, d, rfl, hd, rfl⟩
    exact ⟨.subscription (a := .remove) Q hreaches hremove hlastQ hgives,
      .subscription (a := .add) P hreaches hadd hlastP hgives⟩

/-- A run of the woven code that returns comes to the announcements of the receiver, and they are all that is
left. -/
theorem stored_of_ends {d : Method} {bound : Nat} {f : Frame} {s t : Machine} {v x : Value} {r : HeapRef}
    (hreads : m.Reads readers) (hprologue : ∀ op ∈ l.prologue.map (·.op), op.Reads m readers)
    (hbodiless : ∀ i d (a : EventAccessor), m.method? i = some d → d.name = a.name → d.body = none)
    (hapart : ¬ m.BehindEvent field.token) (hthis : f.arguments = [.ref r, x])
    (hs : (Restraint.free m).Tame s) (hsound : s.heap.Sound m)
    (hends : (⟨m, d⟩ : Site).Ends (Action.invokeAt m bound) (l.weave [i₀, i₁, i₂, i₃]) Site.idle 0 f s
      v t) :
    ∃ type fields w g k y after, s.Hands m (Gives m subscription r) w
      ∧ w.heap.get? r = some (.object type fields) ∧ g.arguments = [.ref r, x]
      ∧ after.length = ctx.property.targets.length
      ∧ (⟨m, d⟩ : Site).Runs (Action.invokeAt m bound) (ctx.changeOps called before after) g w k y
      ∧ t = y.spent 1 := by
  obtain ⟨hunsubscribe, hsubscribe⟩ := halves_auto (l := l) hreaches hops hlabels hfresh
  -- the code in front, and the operands of the store
  obtain ⟨g, u, this, y, hruns, hthis₀, hthis₁, hends⟩ := l.front_of_ends hops hends
  obtain ⟨hlater, hkept⟩ := hruns.since
  have harguments : g.arguments = [.ref r, x] := hkept.arguments.trans hthis
  obtain rfl : .ref r = this := by simpa [harguments] using hthis₀
  obtain rfl : x = y := by simpa [harguments] using hthis₁
  rw [← l.prologue_ops] at hruns
  have hfront : s.Hands m (Gives m subscription r) u :=
    .of_adds hs hsound hlater (hreads.runs hprologue hs.hooks hruns)
  have hloaded : u.Hands m (Gives m subscription r) ((u.spent 1).spent 1) :=
    .of_adds hfront.tame hfront.sound ((Machine.Later.refl u).update (Nat.le_add_right _ 2))
      (((Machine.Adds.refl m u).spent 1).spent 1)
  -- the handler is taken from the old value
  obtain ⟨z, hends, htaken⟩ := hunsubscribe.passes hbodiless (l.holds_unsubscribe hops)
    (show ((g.push (.ref r)).push x).arguments[0]? = _ from hthis₀) hloaded.tame hloaded.sound hends
  -- the store
  obtain ⟨k, y, hruns, hends⟩ := l.store_of_ends hops hends
  obtain ⟨hlater, -⟩ := hruns.since
  obtain ⟨_, type, fields, heq, hr⟩ := Site.object_of_stfld hruns
  cases heq
  obtain ⟨-, hruns⟩ := (Site.runs_cons_of_step (Site.step_stfld (s := z.spent 1)
    (Action.invokeAt m bound) field (f := g) (v := x) hr)).mp hruns
  obtain ⟨rfl, rfl⟩ := Site.runs_nil.mp hruns
  have hstored : z.Hands m (Gives m subscription r) { z.spent 1 with heap := z.heap.put r field.token x } := by
    obtain ⟨hsound, hlists⟩ := Heap.sameLists_put hr hapart htaken.sound
    refine ⟨hlater, (htaken.tame.put hr (Restraint.trusts_free x)).update rfl rfl rfl, hsound, rfl,
      fun c i hi => .inl ?_⟩
    rwa [← hlists c]
  -- the handler is given to the new value
  obtain ⟨w, hends, hgiven⟩ := hsubscribe.passes hbodiless (l.holds_subscribe hops) hthis₀ hstored.tame
    hstored.sound hends
  obtain ⟨_, hr'⟩ := (hlater.trans hgiven.later).object hr
  -- the announcements and the return
  obtain ⟨after, k, y, hlength, hruns, hreturn⟩ := l.back_of_ends hops hends
  exact ⟨type, _, w, _, k, y, after, (((hfront.trans hloaded).trans htaken).trans hstored).trans hgiven, hr',
    harguments, hlength, hruns, (hreturn.of_ret rfl).2⟩

end Layout

end SetterLoom
