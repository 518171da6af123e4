import SetterLoom.Proofs.Machine.Restrained
import SetterLoom.Proofs.Weave.Branches

/-!
# What an assignment changes

The setter of a property with a field of its own stores its argument into that field. What is woven
around the store leaves the held fields alone, apart from the dirty flag; so a call of the woven setter
changes the field of the property in the receiver, perhaps its dirty flag, and no other held field of any
object.

* `Restraint.Guards.passes`: a subscription leaves the held fields and the stack alone.
* `Layout.assigns`: a call of the woven setter.
-/

namespace SetterLoom
set_option autoImplicit false

/-- The values that were stored last in the fields of objects. -/
abbrev Cells := HeapRef → Token → Option Value

namespace Cells

/-- The values after a store. -/
def set (cells : Cells) (r : HeapRef) (f : Token) (v : Value) : Cells :=
  fun q g => if q = r ∧ g = f then some v else cells q g

/-- The values after an assignment that perhaps sets a flag too. -/
def assign (field : Token) (flag : Option Token) (cells : Cells) (r : HeapRef) (v : Value) : Cells :=
  flag.elim (cells.set r field v) fun f => (cells.set r field v).set r f (.int 1)

end Cells

namespace Site

variable {m : Module} {d : Method} {bound : Nat} {f g : Frame} {s t : Machine}

theorem Runs.since {ops : List Op}
    (hruns : (⟨m, d⟩ : Site).Runs (Action.invokeAt m bound) ops f s g t) : s.Later t ∧ f.Kept g := by
  induction hruns with
  | nil => exact ⟨.refl _, rfl, rfl⟩
  | cons hdoes _ ih => exact ⟨(later_does hdoes).1.trans ih.1, hdoes.kept_of_next.trans ih.2⟩

theorem Skips.since {test inner : List Op} {last : Label}
    (hskips : (⟨m, d⟩ : Site).Skips (Action.invokeAt m bound) test last inner f s g t) :
    s.Later t := by
  cases hskips with
  | past htest hbranch hnop =>
    exact (htest.since.1.trans (later_does hbranch).1).trans (later_does hnop).1
  | through htest hbranch hinner hnop =>
    exact ((htest.since.1.trans (later_does hbranch).1).trans hinner.since.1).trans (later_does hnop).1

end Site

/-- The method stores its argument into the field of the receiver and does nothing else. -/
structure Method.Stores (d : Method) (field : Field) : Prop where
  isInstance : d.isStatic = false
  noResult : d.returns = none
  oneParam : d.params.length = 1
  code : ∃ body, d.body = some body
    ∧ body.code.map (·.op) = [.ldarg 0, .ldarg 1, .stfld field, .ret]

namespace Restraint

variable {m : Module} {R : Restraint m} {bound : Nat} {c : Site} {call : Call} {f g : Frame}
  {s t : Machine} {cells : Cells} {r : HeapRef} {type : Token} {fields : TokenMap Value} {v x : Value}

/-- A store into a field of the receiver, with an argument that leads to restrained code only. -/
theorem stores {field : Field} (hr : s.heap.get? r = some (.object type fields)) (hv : R.Trusts v)
    (hs : R.Tame s) (hcells : R.Holds cells s)
    (h : c.Runs call [.stfld field] ((f.push (.ref r)).push v) s g t) :
    g = f ∧ R.Tame t ∧ R.Holds (cells.set r field.token v) t := by
  have hs' : R.Tame (s.spent 1) := hs.update rfl rfl rfl
  have hr' : (s.spent 1).heap.get? r = some (.object type fields) := hr
  obtain ⟨-, hnil⟩ := (Site.runs_cons_of_step (Site.step_stfld call field hr')).mp h
  obtain ⟨rfl, rfl⟩ := Site.runs_nil.mp hnil
  refine ⟨rfl, hs'.put hr' hv, fun q k hk => ?_⟩
  have hcell := Heap.cell_put (q := q) (g := k) (f := field.token) (v := v) hr'
  refine hcell.trans ?_
  unfold Cells.set
  rw [← hcells q k hk]
  rfl

/-- A call of the method on an object of the type, with one argument, has the effect on the held fields
and no other. -/
def Assigns (R : Restraint m) (i : MethodId) (type : Token)
    (effect : Cells → HeapRef → Value → Cells) : Prop :=
  ∀ ⦃bound r v x s t fields cells⦄, s.heap.get? r = some (.object type fields) → R.Tame s →
    R.Holds cells s → R.Trusts v →
    (Action.invokeAt m bound i (some (.ref r)) [v]).run.run s = (.ok x, t) →
    R.Tame t ∧ R.Holds (effect cells r v) t

/-! ## What is woven into a setter -/

/-- The announcements of a plan are restrained, with their hooks. -/
structure Announces (R : Restraint m) (ctx : BlockContext) : Prop where
  hooks : ∀ called target hook, ctx.hookFor? called target = some hook → R.callable hook.method
  invoker : ∀ i ∈ ctx.type.invoker.methods, R.callable i
  getters : ∀ p ∈ ctx.property.targets, ∀ i, p.getter = some i → R.callable i

/-- What a subscription refers to is restrained and has the shape that it needs. -/
structure Follows (R : Restraint m) (ctx : BlockContext) (field : Field) (event : Event)
    (handler : MethodId) : Prop where
  reference : (ctx.module.type? field.type).any (·.isValue) = false
  equals : ∀ i, ctx.resolver.objectEquals ctx.module = .ok i →
    R.callable i ∧ ∃ d, m.Compares i d R.hooks
  makes : ∀ i, ctx.resolver.handlerConstructor ctx.module = .ok i →
    R.callable i ∧ ∃ type, m.MakesHandlers i type
  handler : R.callable handler ∧ ∃ d, m.method? handler = some d ∧ R.worlds.pointable d.token
  accessor : ∀ i, event.add = some i ∨ event.remove = some i →
    R.callable i ∧ ∃ d, m.method? i = some d ∧ d.Accesses

/-- The dirty flag that a setter sets on an object of the type: its field, if it sets one. -/
inductive Flags (R : Restraint m) (ctx : BlockContext) (type : Token) : Option Token → Prop
  | off (h : ctx.dirtySetter? = none) : Flags R ctx type none
  | on {i : MethodId} {d : Method} (f : Token) (h : ctx.dirtySetter? = some i)
    (method : m.method? i = some d) (isInstance : d.isStatic = false)
    (oneParam : d.params.length = 1) (noResult : d.returns = none)
    (assigns : R.Assigns (m.reached type i d) type fun cells r v => cells.set r f v) :
    Flags R ctx type (some f)

theorem allowed_plain {op : Op} (h : ∀ f, op.operand ≠ .field f)
    (h' : ∀ u, op.operand ≠ .method u) : R.likeness.Allowed op :=
  ⟨fun f hf => absurd hf (h f), fun u hu => absurd hu (h' u), fun u _ hu => absurd hu (h' u)⟩

private theorem allowed_call {op : Op} {use : MethodUse} (hop : op.operand = .method use)
    (hcode : op.code ≠ .ldftn) (hi : R.callable use.method) : R.likeness.Allowed op where
  field f hf := by rw [hop] at hf; cases hf
  method u hu := by
    rw [hop] at hu
    cases hu
    exact hi
  pointer u d _ hptr := absurd hptr hcode

section Announcements

variable {ctx : BlockContext} (hannounces : R.Announces ctx)
include hannounces

theorem Announces.allowed_readOps {target : Property} (htarget : target ∈ ctx.property.targets)
    (boxed : Bool) (slot : UInt16) : ∀ op ∈ ctx.readOps target boxed slot, R.likeness.Allowed op := by
  intro op hop
  unfold BlockContext.readOps at hop
  simp only [List.append_assoc, List.mem_append, List.mem_singleton, List.mem_map,
    Option.mem_toList] at hop
  rcases hop with rfl | ⟨i, hi, rfl⟩ | hop | rfl
  · exact allowed_plain nofun nofun
  · exact allowed_call rfl nofun (hannounces.getters target htarget i hi)
  · split at hop
    · rw [List.mem_singleton] at hop
      subst hop
      exact allowed_plain nofun nofun
    · cases hop
  · exact allowed_plain nofun nofun

theorem Announces.allowed_callOp {target : Property} {i : MethodId}
    (hi : i ∈ ctx.type.invoker.methods) : R.likeness.Allowed (ctx.callOp i target) := by
  unfold BlockContext.callOp
  split <;> exact allowed_call rfl nofun (hannounces.invoker i hi)

theorem Announces.allowed_announceOps {target : Property} (htarget : target ∈ ctx.property.targets)
    (before : String → Bool → UInt16) (after : UInt16) :
    ∀ op ∈ ctx.announceOps target before after, R.likeness.Allowed op := by
  have hcall : ∀ i ∈ ctx.type.invoker.methods, R.likeness.Allowed (ctx.callOp i target) :=
    fun _ => hannounces.allowed_callOp
  have hmake : ∀ i ∈ ctx.type.invoker.methods, R.likeness.Allowed (.newobj i) := fun i hi =>
    allowed_call rfl nofun (hannounces.invoker i hi)
  have hread := fun boxed => hannounces.allowed_readOps htarget boxed after
  have hplain : ∀ {op : Op}, (∀ f, op.operand ≠ .field f) → (∀ u, op.operand ≠ .method u) →
      R.likeness.Allowed op := allowed_plain
  intro op hop
  unfold BlockContext.announceOps at hop
  -- what is pushed in front of the call stores nothing and points to nothing
  cases hinvoker : ctx.type.invoker with
  | simple i | arguments i c | senderAndArguments i c =>
    rw [hinvoker] at hop hcall hmake
    simp only [Invoker.methods, Invoker.method, List.cons_append, List.nil_append, List.mem_cons,
      List.not_mem_nil, or_false, forall_eq_or_imp, forall_eq] at hop hcall hmake
    rcases hop with rfl | hop
    · exact hplain (fun _ h => by cases h) fun _ h => by cases h
    · grind [Op.ldarg, Op.ldstr]
  | beforeAfter i | typedBeforeAfter i =>
    rw [hinvoker] at hop hcall
    simp only [Invoker.methods, Invoker.method, List.append_assoc, List.cons_append, List.nil_append,
      List.mem_append, List.mem_cons, List.not_mem_nil, or_false, forall_eq] at hop hcall
    rcases hop with hop | rfl | rfl | rfl | rfl | rfl
    · exact hread _ op hop
    · exact hplain (fun _ h => by cases h) fun _ h => by cases h
    · exact hplain (fun _ h => by cases h) fun _ h => by cases h
    · exact hplain (fun _ h => by cases h) fun _ h => by cases h
    · exact hplain (fun _ h => by cases h) fun _ h => by cases h
    · exact hcall

theorem Announces.allowed_hookOps {target : Property} (htarget : target ∈ ctx.property.targets)
    {hook : ChangeHook} (hhook : R.callable hook.method) (before : String → Bool → UInt16)
    (after : UInt16) : ∀ op ∈ ctx.hookOps target hook before after, R.likeness.Allowed op := by
  intro op hop
  cases hook with
  | noArguments i =>
    simp only [BlockContext.hookOps, List.mem_cons, List.not_mem_nil, or_false] at hop
    rcases hop with rfl | rfl
    · exact allowed_plain nofun nofun
    · exact allowed_call rfl nofun hhook
  | beforeAfter i =>
    simp only [BlockContext.hookOps, List.mem_append, List.mem_cons, List.not_mem_nil, or_false] at hop
    rcases hop with hop | rfl | rfl | rfl | rfl
    · exact hannounces.allowed_readOps htarget true after op hop
    · exact allowed_plain nofun nofun
    · exact allowed_plain nofun nofun
    · exact allowed_plain nofun nofun
    · exact allowed_call rfl nofun hhook

theorem Announces.allowed_targetsOps (called : List String) (before : String → Bool → UInt16)
    (after : List AfterSlots) :
    ∀ op ∈ ctx.targetsOps called before ctx.property.targets after, R.likeness.Allowed op := by
  intro op hop
  obtain ⟨⟨target, slots⟩, hmem, hop⟩ := List.mem_flatMap.mp hop
  unfold BlockContext.targetOps at hop
  rcases List.mem_append.mp hop with hop | hop
  · cases hhook : ctx.hookFor? called target with
    | none =>
      rw [hhook] at hop
      cases hop
    | some hook =>
      rw [hhook] at hop
      exact hannounces.allowed_hookOps (List.of_mem_zip hmem).1 (hannounces.hooks called target hook hhook)
        before slots.hook op hop
  · split at hop
    · cases hop
    · exact hannounces.allowed_announceOps (List.of_mem_zip hmem).1 before slots.call op hop

theorem Announces.allowed_changeOps (hdirty : ∀ i, ctx.dirtySetter? = some i → R.callable i)
    (called : List String) (before : String → Bool → UInt16) (after : List AfterSlots) :
    ∀ op ∈ ctx.changeOps called before after, R.likeness.Allowed op := by
  intro op hop
  rcases List.mem_append.mp hop with hop | hop
  · unfold BlockContext.dirtyFlagOps at hop
    split at hop
    · rename_i i hi
      simp only [List.mem_cons, List.not_mem_nil, or_false] at hop
      rcases hop with rfl | rfl | rfl
      · exact allowed_plain nofun nofun
      · exact allowed_plain nofun nofun
      · exact allowed_call rfl nofun (hdirty i hi)
    · cases hop
  · exact hannounces.allowed_targetsOps called before after op hop

theorem Announces.allowed_entryOps (called : List String) (before : String → Bool → UInt16) :
    ∀ op ∈ ctx.entryOps (ctx.targetsReadings called ctx.property.targets) before,
      R.likeness.Allowed op := by
  intro op hop
  obtain ⟨reading, hreading, hop⟩ := List.mem_flatMap.mp hop
  obtain ⟨target, htarget, hmem⟩ := List.mem_flatMap.mp (mem_of_mem_firstReadings hreading)
  obtain ⟨boxed, -, rfl⟩ := List.mem_map.mp hmem
  exact hannounces.allowed_readOps htarget boxed _ op hop

end Announcements

section Subscription

variable {ctx : BlockContext} {field : Field} {event : Event} {handler accessor : MethodId}
  {block : List Instruction} (P : ctx.Parts field handler accessor block)
  (hfollows : R.Follows ctx field event handler)
  (haccessor : event.add = some accessor ∨ event.remove = some accessor)
include hfollows

theorem Follows.allowed_testOps : ∀ op ∈ ctx.testOps field P.equals, R.likeness.Allowed op := by
  intro op hop
  unfold BlockContext.testOps at hop
  simp only [hfollows.reference, Bool.false_eq_true, if_false, List.append_nil, List.mem_cons,
    List.cons_append, List.nil_append, List.not_mem_nil, or_false] at hop
  rcases hop with rfl | rfl | rfl | rfl
  · exact allowed_plain nofun nofun
  · exact ⟨fun _ _ hcode => (hcode.elim nofun nofun), nofun, nofun⟩
  · exact allowed_plain nofun nofun
  · exact allowed_call rfl nofun (hfollows.equals P.equals P.equals_eq).1

include haccessor in
theorem Follows.allowed_accessOps :
    ∀ op ∈ BlockContext.accessOps field P.handlerConstructor handler accessor,
      R.likeness.Allowed op := by
  obtain ⟨hhandler, d, hd, hpointable⟩ := hfollows.handler
  intro op hop
  unfold BlockContext.accessOps at hop
  simp only [List.mem_cons, List.not_mem_nil, or_false] at hop
  rcases hop with rfl | rfl | rfl | rfl | rfl | rfl
  · exact allowed_plain nofun nofun
  · exact ⟨fun _ _ hcode => (hcode.elim nofun nofun), nofun, nofun⟩
  · exact allowed_plain nofun nofun
  · refine ⟨nofun, fun u hu => ?_, fun u d' hu _ hd' => ?_⟩
    · cases hu
      exact hhandler
    · cases hu
      obtain rfl := Option.some.inj (hd.symm.trans hd')
      exact hpointable
  · exact allowed_call rfl nofun (hfollows.makes P.handlerConstructor P.constructor_eq).1
  · exact allowed_call rfl nofun (hfollows.accessor accessor haccessor).1

include P haccessor in
/-- A run that returns from the start of a subscription goes on behind it, with the frame as it was. -/
theorem Follows.passes (hquiet : R.Quiet) {d : Method} {code : Stream} {p : Nat}
    {rest : List Instruction} (hholds : code.Holds p (block ++ rest))
    (hlast : code.lastPosition? P.last = some (p + (P.test ++ P.branch :: P.inner).length))
    (hthis : f.arguments[0]? = some (.ref r)) (hr : s.heap.get? r = some (.object type fields))
    (hf : R.Fits f) (hs : R.Tame s) (hcells : R.Holds cells s)
    (hends : (⟨m, d⟩ : Site).Ends (Action.invokeAt m bound) code Site.idle p f s v t) :
    ∃ u, (⟨m, d⟩ : Site).Ends (Action.invokeAt m bound) code Site.idle (p + block.length) f u v t
      ∧ s.Later u ∧ R.Tame u ∧ R.Holds cells u := by
  obtain ⟨g, u, hskips, hrest⟩ := P.skips_of_ends hholds hlast hends
  obtain ⟨htame, hholds', -⟩ := R.skips hquiet (hfollows.allowed_testOps P)
    (hfollows.allowed_accessOps P haccessor) hf hs hcells hskips
  obtain ⟨comparer, hcompares⟩ := (hfollows.equals P.equals P.equals_eq).2
  obtain ⟨handlerType, hmakes⟩ := (hfollows.makes P.handlerConstructor P.constructor_eq).2
  obtain ⟨handles, hhandles, -⟩ := hfollows.handler.2
  obtain ⟨accesses, haccesses, hshape⟩ := (hfollows.accessor accessor haccessor).2
  obtain ⟨rfl, -⟩ := hskips.offers
    ⟨hs.hooks.symm ▸ hcompares, hmakes, hhandles, haccesses, hshape⟩ hfollows.reference hthis hr
  exact ⟨u, hrest, hskips.since, htame, hholds'⟩

end Subscription

/-- The code at the position has the block there, which is empty or a subscription that its own branch
goes to the end of. -/
inductive Guards (R : Restraint m) (ctx : BlockContext) (code : Stream) (p : Nat) :
    List Instruction → Prop
  | nothing : Guards R ctx code p []
  | subscription {field : Field} {event : Event} {handler accessor : MethodId}
    {block : List Instruction} (P : ctx.Parts field handler accessor block)
    (follows : R.Follows ctx field event handler)
    (accessor : event.add = some accessor ∨ event.remove = some accessor)
    (last : code.lastPosition? P.last = some (p + (P.test ++ P.branch :: P.inner).length)) :
    Guards R ctx code p block

/-- A run that returns from the start of the block goes on behind it, with the frame as it was. -/
theorem Guards.passes {ctx : BlockContext} {code : Stream} {p : Nat} {block rest : List Instruction}
    (hguards : R.Guards ctx code p block) (hquiet : R.Quiet) {d : Method}
    (hholds : code.Holds p (block ++ rest)) (hthis : f.arguments[0]? = some (.ref r))
    (hr : s.heap.get? r = some (.object type fields)) (hf : R.Fits f) (hs : R.Tame s)
    (hcells : R.Holds cells s)
    (hends : (⟨m, d⟩ : Site).Ends (Action.invokeAt m bound) code Site.idle p f s v t) :
    ∃ u, (⟨m, d⟩ : Site).Ends (Action.invokeAt m bound) code Site.idle (p + block.length) f u v t
      ∧ s.Later u ∧ R.Tame u ∧ R.Holds cells u := by
  cases hguards with
  | nothing => exact ⟨s, hends, .refl s, hs, hcells⟩
  | subscription P hfollows haccessor hlast =>
    exact hfollows.passes P haccessor hquiet hholds hlast hthis hr hf hs hcells hends

theorem Flags.runs {ctx : BlockContext} {flag : Option Token} (hflags : R.Flags ctx type flag)
    {d : Method} (hthis : f.arguments[0]? = some (.ref r))
    (hr : s.heap.get? r = some (.object type fields)) (hs : R.Tame s) (hcells : R.Holds cells s)
    (h : (⟨m, d⟩ : Site).Runs (Action.invokeAt m bound) ctx.dirtyFlagOps f s g t) :
    g = f ∧ R.Tame t ∧ R.Holds (flag.elim cells fun k => cells.set r k (.int 1)) t := by
  unfold BlockContext.dirtyFlagOps at h
  cases hflags with
  | off hoff =>
    rw [hoff] at h
    obtain ⟨rfl, rfl⟩ := Site.runs_nil.mp h
    exact ⟨rfl, hs, hcells⟩
  | on k hon hmethod hinstance hparam hresult hassigns =>
    rw [hon] at h
    obtain ⟨-, hloaded⟩ := (Site.runs_plain (Site.plain_ldarg (v := .ref r) hthis)).mp h
    have hnumber : (⟨m, d⟩ : Site).Plain (Action.invokeAt m bound) (.ldcI4 1) (f.push (.ref r))
        ((f.push (.ref r)).push (.int 1)) := fun _ => rfl
    obtain ⟨-, hnumbered⟩ := (Site.runs_plain hnumber).mp hloaded
    have hcount : [Value.int 1].length = _ := hparam.symm
    obtain ⟨-, x, u, hcall, hrest⟩ := (Site.runs_callvirt (g := f)
      (rfl : Op.callvirt _ = ⟨.callvirt, .method ⟨_, []⟩⟩) hmethod hinstance hcount rfl
      (show ((s.spent 1).spent 1).heap.get? r = _ from hr)).mp hnumbered
    rw [hresult] at hrest
    obtain ⟨rfl, rfl⟩ := Site.runs_nil.mp hrest
    have hone : R.Trusts (.int 1) := .int 1
    have hspent : R.Holds cells (((s.spent 1).spent 1).spent 1) := hcells
    obtain ⟨htame, hholds⟩ := hassigns
      (show (((s.spent 1).spent 1).spent 1).heap.get? r = _ from hr) (hs.update rfl rfl rfl) hspent hone
      hcall
    exact ⟨rfl, htame, hholds⟩

private theorem Fits.push {f : Frame} (h : R.Fits f) (hv : R.Trusts v) : R.Fits (f.push v) := by
  refine ⟨h.arguments, h.slots, fun x hx => ?_⟩
  rcases List.mem_cons.mp hx with rfl | hx
  · exact hv
  · exact h.stack x hx

/-- A method whose body has the effect whenever it returns has the effect whenever it is called. -/
theorem assigns_of_ends {i : MethodId} {d : Method} {body : Body}
    {effect : Cells → HeapRef → Value → Cells} (hd : m.method? i = some d)
    (hbody : d.body = some body) (hinstance : d.isStatic = false)
    (hhook : R.hooks.find? (⟨m, d⟩ : Site).callName = none)
    (hends : ∀ {bound f r x s v t fields cells}, f.arguments = [.ref r, x] →
      s.heap.get? r = some (.object type fields) → R.Fits f → R.Tame s → R.Holds cells s →
      (⟨m, d⟩ : Site).Ends (Action.invokeAt m bound) body.code Site.idle 0 f s v t →
      R.Tame t ∧ R.Holds (effect cells r x) t) :
    R.Assigns i type effect := by
  intro bound r v x s t fields cells hr hs hcells hv hrun
  cases bound with
  | zero => cases (Prod.mk.inj hrun).1
  | succ bound =>
    have hhook' : s.hooks.find? (⟨m, d⟩ : Site).callName = none := by rw [hs.hooks, hhook]
    rw [Action.invokeAt, Action.invokeWith_body hd hhook'] at hrun
    obtain ⟨y, hbodyEnds, rfl⟩ := Site.ends_of_runBody hbody hinstance hrun.2
    have hknown : R.Tame (s.entered ⟨m, d⟩ i) := (hs.learn hd).update rfl rfl rfl
    have hfits : R.Fits { arguments := [.ref r, v], slots := (⟨m, d⟩ : Site).startSlots body } := by
      refine R.fits_start d body fun x hx => ?_
      rcases List.mem_cons.mp hx with rfl | hx
      · exact .ref rfl
      · rwa [List.mem_singleton.mp hx]
    obtain ⟨htame, hholds⟩ := hends
      (s := { s.entered ⟨m, d⟩ i with depth := (s.entered ⟨m, d⟩ i).depth + 1 }) rfl hr hfits
      (hknown.update rfl rfl rfl) hcells hbodyEnds
    exact ⟨htame.update rfl rfl rfl, hholds⟩

theorem assigns_auto {i : MethodId} {d : Method} {field : Field} (hd : m.method? i = some d)
    (hstores : d.Stores field) (hhook : R.hooks.find? (⟨m, d⟩ : Site).callName = none) :
    R.Assigns i type (Cells.assign field.token none) := by
  obtain ⟨body, hbody, hops⟩ := hstores.code
  refine assigns_of_ends hd hbody hstores.isInstance hhook ?_
  intro bound f r x s v t fields cells hthis hr hf hs hcells hends
  have hplain : ∀ op ∈ ([.ldarg 0, .ldarg 1, .stfld field] : List Op), op.Straight := by
    simp [Op.Straight, Op.ldarg, Op.stfld]
  obtain ⟨g, u, hruns, hret⟩ := (Site.ends_straight hops hplain).mp hends
  obtain ⟨-, hruns⟩ := (Site.runs_plain (Site.plain_ldarg (v := .ref r)
    (by rw [hthis]; rfl))).mp hruns
  obtain ⟨-, hruns⟩ := (Site.runs_plain (Site.plain_ldarg (k := 1) (f := f.push (.ref r)) (v := x)
    (show f.arguments[1]? = some x by rw [hthis]; rfl))).mp hruns
  have hx : R.Trusts x := hf.arguments x (by rw [hthis]; simp)
  obtain ⟨rfl, htame, hholds⟩ := R.stores (s := (s.spent 1).spent 1) hr hx (hs.update rfl rfl rfl)
    hcells hruns
  obtain ⟨-, rfl⟩ := hret.of_ret rfl
  exact ⟨htame.update rfl rfl rfl, hholds⟩

end Restraint

theorem Stream.eq_of_four {code : Stream} {a b c d : Op} (h : code.map (·.op) = [a, b, c, d]) :
    ∃ i₀ i₁ i₂ i₃, code = [i₀, i₁, i₂, i₃]
      ∧ i₀.op = a ∧ i₁.op = b ∧ i₂.op = c ∧ i₃.op = d := by
  obtain ⟨i₀, rest, rfl, h₀, h⟩ := List.map_eq_cons_iff.mp h
  obtain ⟨i₁, rest, rfl, h₁, h⟩ := List.map_eq_cons_iff.mp h
  obtain ⟨i₂, rest, rfl, h₂, h⟩ := List.map_eq_cons_iff.mp h
  obtain ⟨i₃, rest, rfl, h₃, h⟩ := List.map_eq_cons_iff.mp h
  obtain rfl := List.map_eq_nil_iff.mp h
  exact ⟨i₀, i₁, i₂, i₃, rfl, h₀, h₁, h₂, h₃⟩

/-! ## The woven setter -/

namespace Layout

variable {ctx : BlockContext} {subscription : Option (Field × Event × MethodId)}
  {called : List String} {before : String → Bool → UInt16}
  {l : Layout ctx subscription called [3] before} {i₀ i₁ i₂ i₃ : Instruction}

section Auto

variable (i₀ i₁ i₃) (hstore : i₂.code ≠ .initobj)
include hstore

theorem storePosition_auto : BlockContext.storePosition [i₀, i₁, i₂, i₃] 3 = 2 := by
  unfold BlockContext.storePosition
  rw [if_neg]
  simpa using hstore

theorem blocks_auto :
    l.block [i₀, i₁, i₂, i₃] 0 = [] ∧ l.block [i₀, i₁, i₂, i₃] 1 = []
      ∧ l.block [i₀, i₁, i₂, i₃] 2 = l.unsubscribe
      ∧ l.block [i₀, i₁, i₂, i₃] 3 = l.subscribe ++ l.notification 3
      ∧ l.block [i₀, i₁, i₂, i₃] 4 = [] := by
  have hposition := storePosition_auto i₀ i₁ i₃ hstore
  unfold block
  rw [List.head?_cons, Option.map_some, hposition]
  simp

theorem weave_auto :
    l.weave [i₀, i₁, i₂, i₃] = l.prologue ++ ([i₀, i₁]
      ++ (l.unsubscribe ++ ([i₂] ++ (l.subscribe ++ (l.notification 3 ++ [i₃]))))) := by
  obtain ⟨h₀, h₁, h₂, h₃, h₄⟩ := l.blocks_auto i₀ i₁ i₃ hstore
  unfold weave Stream.interleave
  simp only [Stream.interleaveFrom, h₀, h₁, h₂, h₃, h₄, List.nil_append, List.cons_append,
    List.append_assoc, Nat.zero_add, Nat.reduceAdd]

theorem holds_auto :
    (l.weave [i₀, i₁, i₂, i₃]).Holds 0 (l.prologue ++ ([i₀, i₁]
      ++ (l.unsubscribe ++ ([i₂] ++ (l.subscribe ++ (l.notification 3 ++ [i₃])))))) := by
  intro k _
  rw [Nat.zero_add, l.weave_auto i₀ i₁ i₃ hstore]

theorem start_auto :
    l.start [i₀, i₁, i₂, i₃] 2 = l.prologue.length + 2
      ∧ l.start [i₀, i₁, i₂, i₃] 3 = l.prologue.length + 2 + l.unsubscribe.length + 1 := by
  obtain ⟨h₀, h₁, h₂, -, -⟩ := l.blocks_auto i₀ i₁ i₃ hstore
  have htwo : Stream.blockStart (l.block [i₀, i₁, i₂, i₃]) 2 = 2 := by
    show 0 + (l.block [i₀, i₁, i₂, i₃] 0).length + 1 + (l.block [i₀, i₁, i₂, i₃] 1).length + 1 = 2
    rw [h₀, h₁, List.length_nil]
  have hthree : Stream.blockStart (l.block [i₀, i₁, i₂, i₃]) 3 = 2 + l.unsubscribe.length + 1 := by
    show Stream.blockStart (l.block [i₀, i₁, i₂, i₃]) 2 + (l.block [i₀, i₁, i₂, i₃] 2).length + 1 = _
    rw [htwo, h₂]
  unfold start
  rw [htwo, hthree]
  omega

end Auto

theorem parts_auto {field : Field} {event : Event} {handler : MethodId} {serial count : Nat}
    {l : Layout ctx (some (field, event, handler)) called [3] before} (hstore : i₂.code ≠ .initobj)
    (hlabels : ((l.injected [i₀, i₁, i₂, i₃]).map (·.label)).Perm
      ((List.range' serial count).map .drawn))
    (hfresh : ∀ i ∈ [i₀, i₁, i₂, i₃], ∀ n, serial ≤ n → i.label ≠ .drawn n) :
    ∃ add remove, event.add = some add ∧ event.remove = some remove
      ∧ (∃ P : ctx.Parts field handler add l.subscribe, (l.weave [i₀, i₁, i₂, i₃]).lastPosition? P.last
          = some (l.start [i₀, i₁, i₂, i₃] 3 + (P.test ++ P.branch :: P.inner).length))
      ∧ ∃ Q : ctx.Parts field handler remove l.unsubscribe, (l.weave [i₀, i₁, i₂, i₃]).lastPosition? Q.last
          = some (l.start [i₀, i₁, i₂, i₃] 2 + (Q.test ++ Q.branch :: Q.inner).length) := by
  obtain ⟨-, -, hblock₂, hblock₃, -⟩ := l.blocks_auto i₀ i₁ i₃ hstore
  obtain ⟨add, remove, hadd, hremove, ⟨P⟩, ⟨Q⟩⟩ := l.subscription_parts
  refine ⟨add, remove, hadd, hremove, ⟨P, ?_⟩, ⟨Q, ?_⟩⟩
  · refine lastPosition?_block hfresh hlabels (p := 3) (i := ⟨P.last, .nop⟩) (by simp) ?_
    rw [hblock₃, List.getElem?_append_left (List.getElem?_eq_some_iff.mp (getElem?_nop P)).1]
    exact getElem?_nop P
  · refine lastPosition?_block hfresh hlabels (p := 2) (i := ⟨Q.last, .nop⟩) (by simp) ?_
    rw [hblock₂]
    exact getElem?_nop Q

/-! ### The stages of a run

A run of the woven code that returns goes through the code in front and the loads, the first half of the
subscription, the store, the second half, and the announcements. -/

section Stages

variable {c : Site} {call : Call} {f : Frame} {s t : Machine} {v : Value} {field : Field}
  (hops : [i₀, i₁, i₂, i₃].map (·.op) = [.ldarg 0, .ldarg 1, .stfld field, .ret])
include hops

theorem stores_auto : i₂.code ≠ .initobj := by
  simp only [List.map_cons, List.map_nil, List.cons.injEq, and_true] at hops
  rw [show i₂.code = i₂.op.code from rfl, hops.2.2.1]
  exact nofun

theorem holds_unsubscribe :
    (l.weave [i₀, i₁, i₂, i₃]).Holds (l.start [i₀, i₁, i₂, i₃] 2)
      (l.unsubscribe ++ ([i₂] ++ (l.subscribe ++ (l.notification 3 ++ [i₃])))) := by
  have hstore := stores_auto hops
  have hback := (l.holds_auto i₀ i₁ i₃ hstore).right.right
  rwa [Nat.zero_add, List.length_cons, List.length_singleton, ← (l.start_auto i₀ i₁ i₃ hstore).1] at hback

theorem holds_subscribe :
    (l.weave [i₀, i₁, i₂, i₃]).Holds (l.start [i₀, i₁, i₂, i₃] 3)
      (l.subscribe ++ (l.notification 3 ++ [i₃])) := by
  obtain ⟨hstart₂, hstart₃⟩ := l.start_auto i₀ i₁ i₃ (stores_auto hops)
  have hback := (l.holds_unsubscribe hops).right.right
  rwa [hstart₂, List.length_singleton, ← hstart₃] at hback

theorem front_of_ends (hends : c.Ends call (l.weave [i₀, i₁, i₂, i₃]) Site.idle 0 f s v t) :
    ∃ g u this x,
      c.Runs call (ctx.entryOps (ctx.targetsReadings called ctx.property.targets) before) f s g u
        ∧ g.arguments[0]? = some this ∧ g.arguments[1]? = some x
        ∧ c.Ends call (l.weave [i₀, i₁, i₂, i₃]) Site.idle (l.start [i₀, i₁, i₂, i₃] 2)
          ((g.push this).push x) ((u.spent 1).spent 1) v t := by
  have hstore := stores_auto hops
  simp only [List.map_cons, List.map_nil, List.cons.injEq, and_true] at hops
  obtain ⟨hop₀, hop₁, -, -⟩ := hops
  have hwhole := l.holds_auto i₀ i₁ i₃ hstore
  obtain ⟨g, u, hruns, hends⟩ := hends.runs hwhole.left fun i hi => (l.working_prologue hi).1
  rw [l.prologue_ops] at hruns
  have hloads : ∀ i ∈ [i₀, i₁], i.op.Straight := by
    simp [hop₀, hop₁, Op.Straight, Op.ldarg]
  obtain ⟨h, z, hloaded, hends⟩ := hends.runs hwhole.right.left hloads
  rw [List.map_cons, List.map_cons, List.map_nil, hop₀, hop₁] at hloaded
  obtain ⟨this, hthis, hloaded⟩ := Site.ldarg_of_runs hloaded
  obtain ⟨x, hx, hloaded⟩ := Site.ldarg_of_runs hloaded
  obtain ⟨rfl, rfl⟩ := Site.runs_nil.mp hloaded
  rw [Nat.zero_add, List.length_cons, List.length_singleton, ← (l.start_auto i₀ i₁ i₃ hstore).1] at hends
  exact ⟨g, u, this, x, hruns, hthis, hx, hends⟩

theorem store_of_ends (hends : c.Ends call (l.weave [i₀, i₁, i₂, i₃]) Site.idle
      (l.start [i₀, i₁, i₂, i₃] 2 + l.unsubscribe.length) f s v t) :
    ∃ g u, c.Runs call [.stfld field] f s g u
      ∧ c.Ends call (l.weave [i₀, i₁, i₂, i₃]) Site.idle (l.start [i₀, i₁, i₂, i₃] 3) g u v t := by
  have hholds := (l.holds_unsubscribe hops).right.left
  obtain ⟨hstart₂, hstart₃⟩ := l.start_auto i₀ i₁ i₃ (stores_auto hops)
  simp only [List.map_cons, List.map_nil, List.cons.injEq, and_true] at hops
  obtain ⟨-, -, hop₂, -⟩ := hops
  have hstraight : ∀ i ∈ [i₂], i.op.Straight := by
    simp [hop₂, Op.Straight, Op.stfld]
  obtain ⟨g, u, hruns, hends⟩ := hends.runs hholds hstraight
  rw [List.map_cons, List.map_nil, hop₂] at hruns
  rw [hstart₂, List.length_singleton, ← hstart₃] at hends
  exact ⟨g, u, hruns, hends⟩

theorem back_of_ends (hends : c.Ends call (l.weave [i₀, i₁, i₂, i₃]) Site.idle
      (l.start [i₀, i₁, i₂, i₃] 3 + l.subscribe.length) f s v t) :
    ∃ after g u, after.length = ctx.property.targets.length
      ∧ c.Runs call (ctx.changeOps called before after) f s g u ∧ c.Does call .ret g u (.done v) t := by
  have hholds := (l.holds_subscribe hops).right
  simp only [List.map_cons, List.map_nil, List.cons.injEq, and_true] at hops
  obtain ⟨-, -, -, hop₃⟩ := hops
  obtain ⟨g, u, hruns, hends⟩ := hends.runs hholds.left fun i hi =>
    (l.working_notification List.mem_cons_self hi).1
  obtain ⟨after, hlength, hchange⟩ := l.notification_ops 3 List.mem_cons_self
  rw [hchange] at hruns
  have hreturn := hends.of_ret hholds.right.head (congrArg Op.code hop₃)
  rw [hop₃] at hreturn
  exact ⟨after, g, u, hlength, hruns, hreturn⟩

end Stages

section Assigned

variable {m : Module} {R : Restraint m} {d : Method} {bound : Nat} {f : Frame} {s t : Machine}
  {cells : Cells} {r : HeapRef} {type : Token} {fields : TokenMap Value} {v x : Value} {field : Field}
  {flag : Option Token} {serial count : Nat}

variable (hquiet : R.Quiet) (hannounces : R.Announces ctx)
  (hfollows : ∀ g event handler, subscription = some (g, event, handler) →
    R.Follows ctx g event handler)
  (hflags : R.Flags ctx type flag)
  (hops : [i₀, i₁, i₂, i₃].map (·.op) = [.ldarg 0, .ldarg 1, .stfld field, .ret])
  (hanchored : Anchored subscription [3] [i₀, i₁, i₂, i₃])
  (hlabels : ((l.injected [i₀, i₁, i₂, i₃]).map (·.label)).Perm
    ((List.range' serial count).map .drawn))
  (hfresh : ∀ i ∈ [i₀, i₁, i₂, i₃], ∀ n, serial ≤ n → i.label ≠ .drawn n)
include hquiet hannounces hfollows hflags hops hanchored hlabels hfresh

omit hquiet hannounces hflags in
theorem guards_auto :
    R.Guards ctx (l.weave [i₀, i₁, i₂, i₃]) (l.start [i₀, i₁, i₂, i₃] 2) l.unsubscribe
      ∧ R.Guards ctx (l.weave [i₀, i₁, i₂, i₃]) (l.start [i₀, i₁, i₂, i₃] 3) l.subscribe := by
  cases subscription with
  | none =>
    have hunsubscribe : l.unsubscribe = [] := l.unsubscribe_ops
    have hsubscribe : l.subscribe = [] := l.subscribe_ops
    rw [hunsubscribe, hsubscribe]
    exact ⟨.nothing, .nothing⟩
  | some followed =>
    obtain ⟨g, event, handler⟩ := followed
    obtain ⟨add, remove, hadd, hremove, ⟨P, hlastP⟩, ⟨Q, hlastQ⟩⟩ :=
      l.parts_auto (stores_auto hops) hlabels hfresh
    have hfollows := hfollows g event handler rfl
    exact ⟨.subscription Q hfollows (.inr hremove) hlastQ, .subscription P hfollows (.inl hadd) hlastP⟩

/-- A run of the woven code that returns has stored the argument in the field of the receiver, and in no
other held field but that of the flag. -/
theorem assigned_of_ends (hthis : f.arguments = [.ref r, x])
    (hr : s.heap.get? r = some (.object type fields)) (hf : R.Fits f) (hs : R.Tame s)
    (hcells : R.Holds cells s)
    (hends : (⟨m, d⟩ : Site).Ends (Action.invokeAt m bound) (l.weave [i₀, i₁, i₂, i₃]) Site.idle 0 f s
      v t) :
    R.Tame t ∧ R.Holds (Cells.assign field.token flag cells r x) t := by
  -- the code in front, and the operands of the store
  obtain ⟨g, u, this, y, hruns, hthis₀, hthis₁, hends⟩ := l.front_of_ends hops hends
  obtain ⟨hlater, hkept⟩ := hruns.since
  obtain ⟨hs, hcells, hg⟩ := R.runs hquiet (hannounces.allowed_entryOps called before) hf hs hcells hruns
  have harguments : g.arguments = [.ref r, x] := hkept.arguments.trans hthis
  obtain rfl : .ref r = this := by simpa [harguments] using hthis₀
  obtain rfl : x = y := by simpa [harguments] using hthis₁
  obtain ⟨fields, hr⟩ := hlater.object hr
  have hx : R.Trusts x := hg.arguments x (List.mem_of_getElem? hthis₁)
  have href : R.Trusts (.ref r) := hg.arguments _ (List.mem_of_getElem? hthis₀)
  -- the handler is taken from the old value
  obtain ⟨hunsubscribe, hsubscribe⟩ := guards_auto (l := l) hfollows hops hanchored hlabels hfresh
  obtain ⟨z, hends, hlater, hs, hcells⟩ := hunsubscribe.passes hquiet (l.holds_unsubscribe hops)
    (show ((g.push (.ref r)).push x).arguments[0]? = _ from hthis₀)
    (show ((u.spent 1).spent 1).heap.get? r = _ from hr) ((hg.push href).push hx)
    (hs.update rfl rfl rfl) hcells hends
  obtain ⟨fields, hr⟩ := hlater.object (show ((u.spent 1).spent 1).heap.get? r = _ from hr)
  -- the store
  obtain ⟨h, y, hruns, hstored⟩ := l.store_of_ends hops hends
  obtain ⟨hlater, -⟩ := hruns.since
  obtain ⟨rfl, hs, hcells⟩ := R.stores hr hx hs hcells hruns
  obtain ⟨fields, hr⟩ := hlater.object hr
  -- the handler is given to the new value
  obtain ⟨z, hends, hlater, hs, hcells⟩ :=
    hsubscribe.passes hquiet (l.holds_subscribe hops) hthis₀ hr hg hs hcells hstored
  obtain ⟨fields, hr⟩ := hlater.object hr
  -- the flag, the announcements and the return
  obtain ⟨after, k, y, -, hruns, hreturn⟩ := l.back_of_ends hops hends
  obtain ⟨g', u', hflagged, hannounced⟩ := hruns.split
  obtain ⟨rfl, hs, hcells⟩ := hflags.runs hthis₀ hr hs hcells hflagged
  obtain ⟨hs, hcells, -⟩ := R.runs hquiet (hannounces.allowed_targetsOps called before after) hg hs
    hcells hannounced
  obtain ⟨-, rfl⟩ := hreturn.of_ret rfl
  exact ⟨hs.update rfl rfl rfl, hcells⟩

/-- A call of the woven setter has stored the argument in the field of the receiver, perhaps set the
flag of the receiver, and changed no other held field of any object. -/
theorem assigns {i : MethodId} {body : Body} (hd : m.method? i = some d) (hbody : d.body = some body)
    (hcode : body.code = l.weave [i₀, i₁, i₂, i₃]) (hinstance : d.isStatic = false)
    (hhook : R.hooks.find? (⟨m, d⟩ : Site).callName = none) :
    R.Assigns i type (Cells.assign field.token flag) := by
  refine Restraint.assigns_of_ends hd hbody hinstance hhook ?_
  intro bound f r x s v t fields cells hthis hr hf hs hcells hends
  rw [hcode] at hends
  exact assigned_of_ends hquiet hannounces hfollows hflags hops hanchored hlabels hfresh hthis hr hf hs
    hcells hends

end Assigned

theorem assigns_of_store {m : Module} {R : Restraint m} {anchors : List Nat} {code : Stream}
    {l : Layout ctx subscription called anchors before} {d : Method} {i : MethodId} {body : Body}
    {type : Token} {field : Field} {flag : Option Token} {serial count : Nat} (hquiet : R.Quiet)
    (hannounces : R.Announces ctx)
    (hfollows : ∀ g event handler, subscription = some (g, event, handler) →
      R.Follows ctx g event handler)
    (hflags : R.Flags ctx type flag)
    (hops : code.map (·.op) = [.ldarg 0, .ldarg 1, .stfld field, .ret]) (hanchors : anchors = [3])
    (hanchored : Anchored subscription anchors code)
    (hlabels : ((l.injected code).map (·.label)).Perm ((List.range' serial count).map .drawn))
    (hfresh : ∀ i ∈ code, ∀ n, serial ≤ n → i.label ≠ .drawn n) (hd : m.method? i = some d)
    (hbody : d.body = some body) (hcode : body.code = l.weave code) (hinstance : d.isStatic = false)
    (hhook : R.hooks.find? (⟨m, d⟩ : Site).callName = none) :
    R.Assigns i type (Cells.assign field.token flag) := by
  subst hanchors
  obtain ⟨i₀, i₁, i₂, i₃, rfl, -⟩ := Stream.eq_of_four hops
  exact l.assigns hquiet hannounces hfollows hflags hops hanchored hlabels hfresh hd hbody hcode
    hinstance hhook

end Layout

end SetterLoom
