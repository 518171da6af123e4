import SetterLoom.Proofs.Machine.Handlers
import SetterLoom.Proofs.Weave.Assigned
import SetterLoom.Proofs.Weave.Kinds

/-!
# Followed fields are mirrored

A woven setter that follows its value takes the handler from the object that the field refers to, stores
the new value and gives the handler to that. So an object has the handler of a field of a parent once if
the field refers to the object, and not at all otherwise, however often objects are shared: what one
setter does to the lists of handlers leaves the handlers of all other fields alone.

* `Heap.Mirrors.cut`, `Heap.Mirrors.join`: one handler taken, one handler given.
* `Site.Skips.offered`: what a subscription block does to the heap.
* `Heap.mirrored_of_store`: a store between the two blocks.
* `Layout.mirrored_of_ends`: a run of the woven setter.
-/

namespace SetterLoom
set_option autoImplicit false

/-! ## Mirrored fields -/

namespace Heap

/-- The fields are mirrored as far as the view of them goes: an object has the handler of a field of a
parent once if the view of that field refers to the object, and not at all otherwise. A link is a field
with the method of its handler. -/
def Mirrors (m : Module) (links : Set (Token × Token)) (view : Cells) (h : Heap) : Prop :=
  ∀ l ∈ links, ∀ p c,
    (h.handlers m c).count ⟨some p, l.2⟩ = if view p l.1 = some (.ref c) then 1 else 0

namespace Mirrors

variable {m : Module} {links : Set (Token × Token)} {view view' : Cells} {h h' : Heap}
  {l : Token × Token} {r c : HeapRef} {v : Value}

theorem congr (hm : Mirrors m links view h) (hhandlers : ∀ q, h'.handlers m q = h.handlers m q)
    (hview : ∀ l ∈ links, ∀ p c, view' p l.1 = some (.ref c) ↔ view p l.1 = some (.ref c)) :
    Mirrors m links view' h' := by
  intro l hl p q
  rw [hhandlers, hm l hl p q]
  simp only [hview l hl p q]

variable (hown : ∀ l ∈ links, ∀ l' ∈ links, l.1 = l'.1 ∨ l.2 = l'.2 → l = l') (hl : l ∈ links)
include hown hl

omit hown hl in
private theorem invocation_eq {k k' : Token} {p : HeapRef} :
    (⟨some r, k⟩ : Invocation) = ⟨some p, k'⟩ ↔ p = r ∧ k' = k := by
  simp only [Invocation.mk.injEq, Option.some.injEq]
  constructor
  · rintro ⟨rfl, rfl⟩
    exact ⟨rfl, rfl⟩
  · rintro ⟨rfl, rfl⟩
    exact ⟨rfl, rfl⟩

private theorem same_iff {l' : Token × Token} (hl' : l' ∈ links) : l'.2 = l.2 ↔ l'.1 = l.1 := by
  constructor
  · intro heq
    rw [hown l' hl' l hl (.inr heq)]
  · intro heq
    rw [hown l' hl' l hl (.inl heq)]

/-- The handler was taken from the object that the field refers to. -/
theorem cut (hm : Mirrors m links view h) (hc : view r l.1 = some (.ref c)) {kept : List Invocation}
    (hkept : withoutLast [⟨some r, l.2⟩] (h.handlers m c) = some kept)
    (hhandlers : ∀ q, h'.handlers m q = if q = c then kept else h.handlers m q) :
    Mirrors m links (view.set r l.1 .null) h' := by
  intro l' hl' p q
  have hold := hm l' hl' p q
  rw [hhandlers]
  unfold Cells.set
  by_cases hq : q = c
  · subst hq
    rw [count_of_withoutLast hkept] at hold
    simp only [invocation_eq, same_iff hown hl hl'] at hold
    rw [if_pos rfl]
    by_cases hpl : p = r ∧ l'.1 = l.1
    · obtain ⟨rfl, hfield⟩ := hpl
      rw [hfield, hc] at hold
      simp only [hfield, and_self, if_true] at hold ⊢
      simp only [Option.some.injEq, reduceCtorEq, if_false]
      omega
    · simp only [hpl, if_false, Nat.add_zero] at hold ⊢
      exact hold
  · rw [if_neg hq, hold]
    by_cases hpl : p = r ∧ l'.1 = l.1
    · obtain ⟨rfl, hfield⟩ := hpl
      have hne : ¬ c = q := fun h => hq h.symm
      simp [hfield, hc, hne]
    · simp only [hpl, if_false]

/-- The handler was given to an object, and the field refers to it from then on. -/
theorem join (hm : Mirrors m links view h) (hv : ∀ q, view r l.1 ≠ some (.ref q))
    (hhandlers : ∀ q, h'.handlers m q
      = if q = c then h.handlers m c ++ [⟨some r, l.2⟩] else h.handlers m q) :
    Mirrors m links (view.set r l.1 (.ref c)) h' := by
  intro l' hl' p q
  have hold := hm l' hl' p q
  rw [hhandlers]
  unfold Cells.set
  by_cases hq : q = c
  · subst hq
    rw [if_pos rfl, List.count_append, hold, List.count_singleton]
    simp only [beq_iff_eq, invocation_eq, same_iff hown hl hl']
    by_cases hpl : p = r ∧ l'.1 = l.1
    · obtain ⟨rfl, hfield⟩ := hpl
      simp [hfield, hv q]
    · simp only [hpl, if_false, Nat.add_zero]
  · rw [if_neg hq, hold]
    by_cases hpl : p = r ∧ l'.1 = l.1
    · obtain ⟨rfl, hfield⟩ := hpl
      have hne : ¬ c = q := fun h => hq h.symm
      simp [hfield, hv q, hne]
    · simp only [hpl, if_false]

end Mirrors

end Heap

/-! ## What a subscription block does -/

/-- What a block did to the heap that calls an accessor on the object that a field refers to: it changed
the list of that object. -/
structure Heap.Offered (m : Module) (a : EventAccessor) (i : Invocation) (v : Option Value) (h h' : Heap) :
    Prop where
  sound : h'.Sound m
  cells : ∀ q g, (∀ t e, m.fieldInLine? t Surface.changedEvent = some e → e.token ≠ g) →
    h'.cell q g = h.cell q g
  handlers : ((∀ c, v ≠ some (.ref c)) ∧ ∀ q, h'.handlers m q = h.handlers m q)
    ∨ ∃ c, v = some (.ref c) ∧ ∀ q, h'.handlers m q
      = if q = c then (a.change [i] (h.handlers m c)).getD (h.handlers m c) else h.handlers m q

namespace Heap

variable {m : Module} {h : Heap} {c : HeapRef} {f u type : Token} {fields : TokenMap Value}

theorem offered_of_nothing {h' : Heap} {a : EventAccessor} {i : Invocation} {v : Option Value}
    (hsound : h.Sound m) (hheap : h' = h ∨ ∃ o, o.Made ∧ h' = h.push o) (hv : ∀ q, v ≠ some (.ref q)) :
    h.Offered m a i v h' := by
  rcases hheap with rfl | ⟨o, ho, rfl⟩
  · exact ⟨hsound, fun _ _ _ => rfl, .inl ⟨hv, fun _ => rfl⟩⟩
  · exact ⟨hsound.push ho, fun _ _ _ => cell_push ho, .inl ⟨hv, fun _ => handlers_push hsound ho⟩⟩

theorem Offered.behind_push {h₁ h' : Heap} {a : EventAccessor} {i : Invocation} {v : Option Value}
    (hsound : h.Sound m) (hheap : h₁ = h ∨ ∃ o, o.Made ∧ h₁ = h.push o) (hoffered : h₁.Offered m a i v h') :
    h.Offered m a i v h' := by
  rcases hheap with rfl | ⟨o, ho, rfl⟩
  · exact hoffered
  · refine ⟨hoffered.sound, fun q g hg => (hoffered.cells q g hg).trans (cell_push ho), ?_⟩
    rcases hoffered.handlers with ⟨hv, hsame⟩ | ⟨c, hv, hlists⟩
    · exact .inl ⟨hv, fun q => (hsame q).trans (handlers_push hsound ho)⟩
    · refine .inr ⟨c, hv, fun q => ?_⟩
      rw [hlists q, handlers_push hsound ho, handlers_push hsound ho]

theorem offered_of_stored {a : EventAccessor} {i : Invocation} {o : HeapObject} (ho : o.Made)
    (hsound : h.Sound m) (hc : (h.push o).get? c = some (.object type fields))
    (hf : (h.push o).eventToken? m c = some f) :
    h.Offered m a i (some (.ref c)) ((a.change [i] ((h.push o).handlers m c)).elim (h.push o)
      ((h.push o).stored c f u)) := by
  have hsound' := hsound.push ho
  obtain ⟨t, e, he, htoken⟩ := eventToken?_eq_some hf
  cases hchange : a.change [i] ((h.push o).handlers m c) with
  | none =>
    refine ⟨hsound', fun q g _ => cell_push ho, .inr ⟨c, rfl, fun q => ?_⟩⟩
    rw [handlers_push hsound ho] at hchange
    show (h.push o).handlers m q = _
    rw [handlers_push hsound ho, hchange, Option.getD_none]
    split
    · rename_i hq
      rw [hq]
    · rfl
  | some list =>
    have hstored : ((h.push o).stored c f u list).Sound m := (handlers_stored (r := c) hc hsound' hf).1
    refine ⟨hstored, fun q g hg => ?_, .inr ⟨c, rfl, fun q => ?_⟩⟩
    · have hne : ¬ (q = c ∧ g = f) := by
        rintro ⟨-, rfl⟩
        exact hg t e he htoken
      exact (cell_stored hc hne).trans (cell_push ho)
    · rw [handlers_push hsound ho] at hchange
      show ((h.push o).stored c f u list).handlers m q = _
      rw [(handlers_stored hc hsound' hf).2, handlers_push hsound ho, hchange, Option.getD_some]

end Heap

theorem Module.defaultOf_ne_ref (m : Module) (t : TypeId) (q : HeapRef) : m.defaultOf t ≠ .ref q := by
  unfold Module.defaultOf
  split
  · rename_i d _
    unfold TypeDef.default
    split <;> simp
  · exact fun h => by cases h

theorem Restraint.Tame.trusts_fieldValue {c : Site} {R : Restraint c.module} {s : Machine} (hs : R.Tame s)
    {r : HeapRef} {type : Token} {fields : TokenMap Value}
    (hr : s.heap.get? r = some (.object type fields)) (field : Field) :
    R.Trusts (c.fieldValue fields field) := by
  have hdefault : R.Trusts (c.module.defaultOf field.type) :=
    Likeness.values_defaultOf (L := R.likeness) (w := fun _ _ => none) field.type
  unfold Site.fieldValue
  cases hs.objects r _ hr with
  | object _ hfields =>
    have hfield := hfields field.token
    cases hvalue : fields.get? field.token with
    | none => exact hdefault
    | some v =>
      rw [hvalue] at hfield
      cases hfield with
      | some hv => exact hv

namespace Site

variable {c : Site} {R : Restraint c.module} {bound count : Nat} {handler accessor : MethodId}
  {handles accesses : Method} {handlerType : Token} {field : Field} {r : HeapRef} {f g : Frame}
  {s t u y : Machine} {v x : Value} {a : EventAccessor}

/-- An accessor that was called on a value with a new handler changed the list of the object that the value
refers to. -/
theorem offered_of_called (hy : R.Tame y) (hsound : y.heap.Sound c.module)
    (hhandles : c.module.method? handler = some handles) (hpointable : R.worlds.pointable handles.token)
    (haccesses : c.module.method? accessor = some accesses) (hname : accesses.name = a.name)
    (hbodiless : ∀ i d, c.module.method? i = some d → d.name = a.name → d.body = none)
    (hhooks : R.hooks = Machine.withRuntimeMembers.hooks)
    (hcalled : (c.callOn (Action.invokeAt c.module bound) .callvirt accessor accesses v
      [.ref y.heap.next]).run.run ((y.offering handlerType r handles.token handler).spent count)
        = (.ok x, t)) :
    ∃ q, v = .ref q ∧ R.Tame t ∧ t.notices = y.notices
      ∧ y.heap.Offered c.module a ⟨some r, handles.token⟩ (some (.ref q)) t.heap := by
  have hother : accesses.name ≠ Surface.invoke := by
    rw [hname]
    cases a <;> decide +kernel
  obtain ⟨j, e, he, hsame, hrun⟩ := Action.callOn_ok haccesses hother hcalled
  have hinvocation : R.worlds.Invocations (fun _ _ => none) ⟨some r, handles.token⟩
      ⟨some r, handles.token⟩ := ⟨.some rfl, rfl, hpointable⟩
  have hmade : (HeapObject.delegate handlerType [⟨some r, handles.token⟩]).Made := Heap.made_delegate
  have hpushed : R.Tame { y with heap := y.heap.push (.delegate handlerType [⟨some r, handles.token⟩]) } :=
    hy.push (.delegate _ (List.forall₂_same.mpr fun i hi => List.mem_singleton.mp hi ▸ hinvocation))
  have hoffering : R.Tame ((y.offering handlerType r handles.token handler).spent count) :=
    (hpushed.load hhandles).update rfl rfl rfl
  obtain ⟨q, k, type, fields, rfl, hq, hk, ht, hnotices⟩ := Action.accessor_ok he (hsame.trans hname)
    (hbodiless j e he (hsame.trans hname)) (hoffering.hooks.trans hhooks) (hsound.push hmade)
    (Heap.get?_push_new y.heap _) hrun
  have hentered : R.Tame (((y.offering handlerType r handles.token handler).spent count).entered
      ⟨c.module, e⟩ j) := (hoffering.learn he).update rfl rfl rfl
  refine ⟨q, rfl, ?_, hnotices, ?_⟩
  · rw [ht]
    exact (hentered.changed hq hinvocation a).update rfl rfl rfl
  · rw [ht]
    exact Heap.offered_of_stored hmade hsound hq hk

variable {ctx : BlockContext} {equals : MethodId} {comparer : Method} {type : Token} {fields : TokenMap Value}
  {n : Int32} {h : Frame}

/-- What the test of a subscription leaves: whether the value of the field is null, and perhaps a box. -/
theorem tested (hruns : c.Runs (Action.invokeAt c.module bound) (ctx.testOps field equals) f s h t)
    (hcompares : c.module.Compares equals comparer s.hooks) (hthis : f.arguments[0]? = some (.ref r))
    (hr : s.heap.get? r = some (.object type fields)) (hs : R.Tame s) :
    R.Tame t ∧ t.notices = s.notices ∧ (t.heap = s.heap ∨ ∃ o, o.Made ∧ t.heap = s.heap.push o)
      ∧ ∃ n, h = f.push (.int n) ∧ (n ≠ 0 → c.fieldValue fields field = .null) := by
  have hzero : ∀ {v : Value}, ((if v = .null then 1 else 0 : Int32) ≠ 0) → v = .null := by
    intro v hne
    by_contra hv
    exact hne (if_neg hv)
  -- the value is compared as it is unless it is boxed
  have hplain : ∀ {y : Machine}, y.heap = s.heap → R.Tame y → y.notices = s.notices → y.hooks = s.hooks →
      c.Runs (Action.invokeAt c.module bound) [.ldnull, .call equals] (f.push (c.fieldValue fields field)) y
        h t → R.Tame t ∧ t.notices = s.notices ∧ (t.heap = s.heap ∨ ∃ o, o.Made ∧ t.heap = s.heap.push o)
          ∧ ∃ n, h = f.push (.int n) ∧ (n ≠ 0 → c.fieldValue fields field = .null) := by
    intro y hheap hy hnotices hhooks hruns
    obtain ⟨rfl, rfl⟩ := runs_nil.mp (runs_compare (hhooks ▸ hcompares) hruns)
    exact ⟨(hy.learn hcompares.method).update rfl rfl rfl, (Machine.notices_push rfl rfl).trans hnotices,
      .inl hheap, _, rfl, hzero⟩
  have hspent : R.Tame (s.spent 2) := hs.update rfl rfl rfl
  unfold BlockContext.testOps at hruns
  by_cases hvalue : (ctx.module.type? field.type).any (·.isValue) = true
  · simp only [hvalue, if_true] at hruns
    have hloaded := runs_field hthis hr hruns
    cases htype : (c.module.type? field.type).filter (·.isValue) with
    | none =>
      have hstep : (c.step (Action.invokeAt c.module bound) (.box field.type)
          (f.push (c.fieldValue fields field))).run.run ((s.spent 2).spent 1)
            = (.ok (.next (f.push (c.fieldValue fields field))), (s.spent 2).spent 1) := by
        show (c.boxTop (f.push (c.fieldValue fields field)) field.type).run.run _ = _
        unfold boxTop
        rw [Action.bind_run]
        simp only [htype]
        rfl
      obtain ⟨-, hrest⟩ := (runs_cons_of_step hstep).mp hloaded
      exact hplain (y := (s.spent 2).spent 1) rfl (hspent.update rfl rfl rfl) rfl rfl hrest
    | some d =>
      obtain ⟨hd, hisValue⟩ := Option.filter_eq_some_iff.mp htype
      obtain ⟨-, hboxed⟩ := (runs_cons_of_step (step_box hd hisValue)).mp hloaded
      have hbox : (HeapObject.boxed d.token (c.fieldValue fields field)).Made := fun _ _ heq => by cases heq
      have hpushed : R.Tame { s with heap := s.heap.push (.boxed d.token (c.fieldValue fields field)) } :=
        hs.push (.boxed _ (hs.trusts_fieldValue hr field))
      obtain ⟨rfl, rfl⟩ := runs_nil.mp (runs_compare
        (s := { (s.spent 2).spent 1 with heap := s.heap.push (.boxed d.token (c.fieldValue fields field)) })
        hcompares hboxed)
      exact ⟨((hpushed.update rfl rfl rfl : R.Tame _).learn hcompares.method).update rfl rfl rfl,
        Machine.notices_push rfl rfl, .inr ⟨_, hbox, rfl⟩, 0, rfl, fun hne => absurd rfl hne⟩
  · rw [if_neg hvalue] at hruns
    exact hplain (y := s.spent 2) rfl hspent rfl rfl (runs_field hthis hr hruns)

/-- A run of a subscription block changes the list of the object that the field of the receiver refers
to. -/
theorem Skips.offered {last : Label} {handlerConstructor : MethodId}
    (hskips : c.Skips (Action.invokeAt c.module bound) (ctx.testOps field equals) last
      (BlockContext.accessOps field handlerConstructor handler accessor) f s g u)
    (hsubscribes : c.module.Subscribes s.hooks equals handlerConstructor handler accessor comparer
      handles accesses handlerType)
    (hthis : f.arguments[0]? = some (.ref r)) (hr : s.heap.get? r = some (.object type fields))
    (hs : R.Tame s) (hsound : s.heap.Sound c.module) (hpointable : R.worlds.pointable handles.token)
    (hname : accesses.name = a.name)
    (hbodiless : ∀ i d, c.module.method? i = some d → d.name = a.name → d.body = none)
    (hhooks : R.hooks = Machine.withRuntimeMembers.hooks) :
    g = f ∧ R.Tame u ∧ u.notices = s.notices
      ∧ s.heap.Offered c.module a ⟨some r, handles.token⟩ (s.heap.cell r field.token) u.heap := by
  have hcell : s.heap.cell r field.token = fields.get? field.token := Heap.cell_of_object hr
  cases hskips with
  -- the branch is taken, so the field holds no object
  | past htest hbranch hnop =>
    obtain ⟨ht, hnotices, hheap, n, rfl, hnull⟩ := tested htest hsubscribes.compares hthis hr hs
    obtain ⟨rfl, hway⟩ := does_brtrue hbranch
    have hn : n ≠ 0 := by
      rintro rfl
      rw [if_pos rfl] at hway
      cases hway
    rw [if_neg hn] at hway
    cases hway
    obtain ⟨hway, rfl⟩ := does_nop hnop
    cases hway
    refine ⟨rfl, ht.update rfl rfl rfl, hnotices, ?_⟩
    have hvalue : ∀ q, s.heap.cell r field.token ≠ some (.ref q) := by
      intro q hq
      have hfield := hnull hn
      rw [hcell] at hq
      unfold fieldValue at hfield
      rw [hq] at hfield
      cases hfield
    exact Heap.offered_of_nothing hsound hheap hvalue
  -- the accessor was called, so the field holds the object it was called on
  | @through h k n t x y htest hbranch hinner hnop =>
    obtain ⟨ht, hnotices, hheap, n, rfl, hnull⟩ := tested htest hsubscribes.compares hthis hr hs
    obtain ⟨rfl, hway⟩ := does_brtrue hbranch
    have hn : n = 0 := by
      by_contra hn
      rw [if_neg hn] at hway
      cases hway
    rw [if_pos hn] at hway
    cases hway
    have hr' : (t.spent 1).heap.get? r = some (.object type fields) := by
      show t.heap.get? r = _
      rcases hheap with heq | ⟨o, -, heq⟩
      · rw [heq, hr]
      · rw [heq, Heap.get?_push_of_some hr]
    have hsound' : (t.spent 1).heap.Sound c.module := by
      show t.heap.Sound c.module
      rcases hheap with heq | ⟨o, ho, heq⟩
      · rwa [heq]
      · rw [heq]
        exact hsound.push ho
    obtain ⟨rfl, x, hcall⟩ := runs_access (s := t.spent 1) hsubscribes.makes hsubscribes.handler
      hsubscribes.accessor hsubscribes.shape hthis hr' hinner
    obtain ⟨hway, rfl⟩ := does_nop hnop
    cases hway
    have htame : R.Tame (t.spent 1) := ht.update rfl rfl rfl
    obtain ⟨q, hvalue, hy, hcalled, hoffered⟩ := offered_of_called htame hsound' hsubscribes.handler hpointable
      hsubscribes.accessor hname hbodiless hhooks hcall
    have hq : s.heap.cell r field.token = some (.ref q) := by
      rw [hcell]
      unfold fieldValue at hvalue
      cases hfield : fields.get? field.token with
      | none =>
        rw [hfield] at hvalue
        exact absurd hvalue (c.module.defaultOf_ne_ref _ q)
      | some v =>
        rw [hfield] at hvalue
        rw [show v = .ref q from hvalue]
    rw [hq]
    exact ⟨rfl, hy.update rfl rfl rfl, hcalled.trans hnotices, hoffered.behind_push hsound hheap⟩

end Site

/-! ## Code that neither changes followed fields nor lists of handlers -/

/-- Fields that are followed, each with the method of its handler. They are told from each other, and
from the fields behind changed events, and the machine answers for the accessors of the event. -/
structure Module.Links (m : Module) (links : Set (Token × Token)) : Prop where
  own : ∀ l ∈ links, ∀ l' ∈ links, l.1 = l'.1 ∨ l.2 = l'.2 → l = l'
  apart : ∀ l ∈ links, ∀ t e, m.fieldInLine? t Surface.changedEvent = some e → e.token ≠ l.1
  bodiless : ∀ i d (a : EventAccessor), m.method? i = some d → d.name = a.name → d.body = none

/-- The heaps in which the followed fields are mirrored, and objects have handlers of such fields only. -/
structure Heap.Mirrored (m : Module) (links : Set (Token × Token)) (h : Heap) : Prop where
  sound : h.Sound m
  mirrors : h.Mirrors m links h.cell
  given : ∀ c, ∀ i ∈ h.handlers m c, ∃ l ∈ links, ∃ p, i = ⟨some p, l.2⟩

/-- Nobody has got another handler. -/
theorem Heap.Offered.mem_handlers {m : Module} {a : EventAccessor} {i : Invocation} {v : Option Value}
    {h h' : Heap} (hoffered : h.Offered m a i v h') {c : HeapRef} {j : Invocation}
    (hj : j ∈ h'.handlers m c) : j ∈ h.handlers m c ∨ j = i := by
  rcases hoffered.handlers with ⟨-, hsame⟩ | ⟨q, -, hlists⟩
  · rw [hsame] at hj
    exact .inl hj
  · rw [hlists] at hj
    split at hj
    · rename_i hc
      subst hc
      cases hchange : a.change [i] (h.handlers m c) with
      | none =>
        rw [hchange, Option.getD_none] at hj
        exact .inl hj
      | some list =>
        rw [hchange, Option.getD_some] at hj
        exact mem_of_change rfl hchange hj
    · exact .inl hj

/-- A handler that was given or taken is that of a followed field. -/
theorem Heap.Offered.given {m : Module} {links : Set (Token × Token)} {a : EventAccessor} {r : HeapRef}
    {l : Token × Token} {v : Option Value} {h h' : Heap} (hoffered : h.Offered m a ⟨some r, l.2⟩ v h')
    (hl : l ∈ links) (hgiven : ∀ c, ∀ i ∈ h.handlers m c, ∃ l ∈ links, ∃ p, i = ⟨some p, l.2⟩) :
    ∀ c, ∀ i ∈ h'.handlers m c, ∃ l ∈ links, ∃ p, i = ⟨some p, l.2⟩ := by
  intro q i hi
  rcases hoffered.mem_handlers hi with hi | rfl
  · exact hgiven q i hi
  · exact ⟨l, hl, r, rfl⟩

theorem EventAccessor.name_ne (a : EventAccessor) :
    a.name ≠ Surface.invoke ∧ a.name ≠ Surface.constructor := by
  cases a <;> decide +kernel

/-- A hook that adds or removes handlers answers for methods with the name of that accessor only. -/
theorem name_of_hook {c : CallName} {h : Hook}
    (hfind : Machine.withRuntimeMembers.hooks.find? c = some h)
    (haction : h.action = .runtime .addHandler ∨ h.action = .runtime .removeHandler) :
    ∃ a : EventAccessor, c.method = a.name := by
  have hall : ∀ hook ∈ Machine.withRuntimeMembers.hooks,
      hook.action = .runtime .addHandler ∨ hook.action = .runtime .removeHandler →
      hook.pattern = some ⟨none, none, some EventAccessor.add.name⟩
        ∨ hook.pattern = some ⟨none, none, some EventAccessor.remove.name⟩ := by
    decide +kernel
  have hfits : h.fits c = true := by
    have hfound : List.find? (·.fits c) Machine.withRuntimeMembers.hooks = some h := hfind
    simpa using List.find?_some hfound
  unfold Hook.fits at hfits
  rcases hall h (List.mem_of_find?_eq_some hfind) haction with hpattern | hpattern
  · rw [hpattern] at hfits
    simp only [Option.any_some, NamePattern.fits, NamePattern.fitsPart, Bool.true_and, beq_iff_eq] at hfits
    exact ⟨.add, hfits.symm⟩
  · rw [hpattern] at hfits
    simp only [Option.any_some, NamePattern.fits, NamePattern.fitsPart, Bool.true_and, beq_iff_eq] at hfits
    exact ⟨.remove, hfits.symm⟩

/-- What is followed in a module: the fields with their handlers, and the names of the methods that are
not to be called, none of which is the name of a constructor. -/
structure Wiring where
  links : Set (Token × Token)
  avoided : Set String
  constructor_notMem : Surface.constructor ∉ avoided

/-- The method is no accessor of a changed event and has no name that is avoided. -/
def Module.Ordinary (m : Module) (avoided : Set String) (i : MethodId) : Prop :=
  ∀ d, m.method? i = some d → (∀ a : EventAccessor, d.name ≠ a.name) ∧ d.name ∉ avoided

/-- Such code does not store into followed fields or behind changed events and calls no accessor and no
method that is to be avoided. -/
def Restraint.mirroring (m : Module) (W : Wiring) : Restraint m where
  held f := (∃ t e, m.fieldInLine? t Surface.changedEvent = some e ∧ e.token = f) ∨ ∃ l ∈ W.links, l.1 = f
  callable := m.Ordinary W.avoided
  hooks := Machine.withRuntimeMembers.hooks
  dispatched := fun hi hd hd' hname e he => by
    obtain rfl := Option.some.inj (hd'.symm.trans he)
    rw [hname]
    exact hi _ hd
  constructors := fun hd hname e he => by
    obtain rfl := Option.some.inj (hd.symm.trans he)
    rw [hname]
    exact ⟨fun a => a.name_ne.2.symm, W.constructor_notMem⟩
  runtime := fun h hmem => by
    have hall : ∀ hook ∈ Machine.withRuntimeMembers.hooks,
        hook ∈ RuntimeMember.all.map RuntimeMember.hook := by
      decide +kernel
    obtain ⟨member, -, rfl⟩ := List.mem_map.mp (hall h hmem)
    cases member <;> exact ⟨_, rfl⟩
  events := fun hi hd hfind haction => by
    obtain ⟨a, ha⟩ := name_of_hook hfind haction
    exact absurd ha ((hi _ hd).1 a)

namespace Restraint

variable {m : Module} {W : Wiring}

theorem keeps_mirrored : (mirroring m W).Keeps (Heap.Mirrored m W.links) where
  push := by
    rintro h o ⟨hsound, hmirrors, hgiven⟩ ho
    refine ⟨hsound.push ho, hmirrors.congr (fun q => Heap.handlers_push hsound ho) fun l _ p c => ?_,
      fun c => ?_⟩
    · rw [Heap.cell_push ho]
    · rw [Heap.handlers_push hsound ho]
      exact hgiven c
  put := by
    rintro h r f v t fields ⟨hsound, hmirrors, hgiven⟩ hr hfree
    have hevent : h.eventToken? m r ≠ some f := by
      intro hf
      obtain ⟨t, e, he, htoken⟩ := Heap.eventToken?_eq_some hf
      exact hfree (.inl ⟨t, e, he, htoken⟩)
    refine ⟨hsound.put hr hevent, hmirrors.congr (fun q => Heap.handlers_put hsound hr hevent)
      fun l hl p c => ?_, fun c => ?_⟩
    · have hne : ¬ (p = r ∧ l.1 = f) := by
        rintro ⟨-, rfl⟩
        exact hfree (.inr ⟨l, hl, rfl⟩)
      rw [Heap.cell_put hr, if_neg hne]
    · rw [Heap.handlers_put hsound hr hevent]
      exact hgiven c

/-- Nothing was stored in the fields of objects. -/
theorem mirrored_of_empty {h : Heap} (links : Set (Token × Token)) (hempty : ∀ r f, h.cell r f = none) :
    h.Mirrored m links := by
  have hcell : ∀ c, h.changedCell m c = none := by
    intro c
    unfold Heap.changedCell
    cases h.eventToken? m c with
    | none => rfl
    | some f => exact hempty c f
  have hhandlers : ∀ c, h.handlers m c = [] := by
    intro c
    unfold Heap.handlers
    rw [hcell]
    rfl
  refine ⟨fun c v hv => ?_, fun l _ p c => ?_, fun c i hi => ?_⟩
  · rw [hcell] at hv
    cases hv
  · rw [hhandlers, hempty]
    rfl
  · rw [hhandlers] at hi
    cases hi

/-- States with mirrored fields are not left by such code. -/
def mirrored (m : Module) (W : Wiring) : Likeness m m :=
  (mirroring m W).keeping (fun _ => Heap.Mirrored m W.links) fun _ => keeps_mirrored

end Restraint

/-- Calls of all depths do not lead out of the states that something holds of if the bodies do not, whatever
the calls that they make. -/
theorem Likeness.calls_of_bodies {m : Module} {L : Likeness m m}
    (h : ∀ ⦃bound i⦄, L.Calls (Action.invokeAt m bound) (Action.invokeAt m bound) → L.callable i →
      L.Bodies (Action.invokeAt m bound) (Action.invokeAt m bound) i) (bound : Nat) :
    L.Calls (Action.invokeAt m bound) (Action.invokeAt m bound) := by
  induction bound with
  | zero => exact fun _ _ _ _ _ _ _ _ _ => .fault
  | succ bound ih =>
    intro w i this this' args args' hi hthis hargs
    exact like_invokeWith ih hi (h ih hi) hthis hargs

/-! ## A woven setter -/

/-- What a subscription refers to has the shape that it needs; the handler has the given token. -/
structure BlockContext.Reaches {m : Module} (ctx : BlockContext) (R : Restraint m) (field : Field) (event : Event)
    (handler : MethodId) (token : Token) : Prop where
  equals : ∀ i, ctx.resolver.objectEquals ctx.module = .ok i → ∃ d, m.Compares i d R.hooks
  makes : ∀ i, ctx.resolver.handlerConstructor ctx.module = .ok i → ∃ type, m.MakesHandlers i type
  handler : ∃ d, m.method? handler = some d ∧ d.token = token ∧ R.worlds.pointable token
  accessor : ∀ (a : EventAccessor) i, a.method event = some i →
    ∃ d, m.method? i = some d ∧ d.Accesses ∧ d.name = a.name

namespace Site

variable {c : Site} {call : Call} {f h : Frame} {s u : Machine} {ops : List Op}

theorem object_of_ldfld {v : Value} {field : Field} (hruns : c.Runs call (.ldfld field :: ops) (f.push v) s h u) :
    ∃ r type fields, v = .ref r ∧ s.heap.get? r = some (.object type fields) := by
  obtain ⟨g, t, hdoes, -⟩ := runs_cons.mp hruns
  have hload : (c.loadField (f.push v) field).run.run { s with executed := s.executed + 1 }
      = (.ok (.next g), t) := hdoes.2
  obtain ⟨_, _, hpop, h₁⟩ := Steps.bind_ok.mp hload
  obtain ⟨hpopped, rfl⟩ := Prod.mk.inj hpop
  obtain rfl := Except.ok.inj hpopped
  obtain ⟨r, _, hobject, h₂⟩ := Steps.bind_ok.mp h₁
  obtain ⟨stored, _, hread, -⟩ := Steps.bind_ok.mp h₂
  cases v with
  | ref q =>
    obtain ⟨hq, rfl⟩ := Prod.mk.inj hobject
    obtain rfl := Except.ok.inj hq
    obtain ⟨hread, -⟩ := Prod.mk.inj hread
    cases hget : s.heap.get? q with
    | none =>
      simp only [Heap.getField, Heap.get, hget] at hread
      cases hread
    | some o =>
      simp only [Heap.getField, Heap.get, hget] at hread
      cases o with
      | object type fields => exact ⟨q, type, fields, rfl, hget⟩
      | string | boxed | delegate => cases hread
  | void | int | null | struct | address | function => cases (Prod.mk.inj hobject).1

end Site

namespace BlockContext

variable {m : Module} {ctx : BlockContext} {field : Field} {event : Event}
  {handler accessor : MethodId} {token : Token} {a : EventAccessor} {block : List Instruction}

/-- A run that returns from the start of a subscription goes on behind it, and has changed the list of the
object that the field refers to. -/
theorem Reaches.passes {R : Restraint m} (hreaches : ctx.Reaches R field event handler token)
    (hhooks : R.hooks = Machine.withRuntimeMembers.hooks)
    (hbodiless : ∀ i d (a : EventAccessor), m.method? i = some d → d.name = a.name → d.body = none)
    (haccessor : a.method event = some accessor) (P : ctx.Parts field handler accessor block) {d : Method}
    {bound p : Nat} {code : Stream} {rest : List Instruction} {f : Frame} {s t : Machine} {v : Value}
    (hholds : code.Holds p (block ++ rest))
    (hlast : code.lastPosition? P.last = some (p + (P.test ++ P.branch :: P.inner).length))
    (hs : R.Tame s) (hsound : s.heap.Sound m)
    (hends : (⟨m, d⟩ : Site).Ends (Action.invokeAt m bound) code Site.idle p f s v t) :
    ∃ r type fields u, f.arguments[0]? = some (.ref r) ∧ s.heap.get? r = some (.object type fields)
      ∧ (⟨m, d⟩ : Site).Ends (Action.invokeAt m bound) code Site.idle (p + block.length) f u v t
      ∧ s.Later u ∧ R.Tame u ∧ u.notices = s.notices
      ∧ s.heap.Offered m a ⟨some r, token⟩ (s.heap.cell r field.token) u.heap := by
  obtain ⟨g, u, hskips, hrest⟩ := P.skips_of_ends hholds hlast hends
  -- on either way the test is run, which loads the field of an object
  have hthis : ∃ r type fields, f.arguments[0]? = some (.ref r)
      ∧ s.heap.get? r = some (.object type fields) := by
    have htested : ∀ {h x}, (⟨m, d⟩ : Site).Runs (Action.invokeAt m bound) (ctx.testOps field P.equals) f s
        h x → ∃ r type fields, f.arguments[0]? = some (.ref r)
          ∧ s.heap.get? r = some (.object type fields) := by
      intro h x hruns
      unfold testOps at hruns
      obtain ⟨this, hthis, hloaded⟩ := Site.ldarg_of_runs hruns
      obtain ⟨r, type, fields, rfl, hr⟩ := Site.object_of_ldfld hloaded
      exact ⟨r, type, fields, hthis, hr⟩
    cases hskips with
    | past htest => exact htested htest
    | through htest => exact htested htest
  obtain ⟨r, type, fields, hthis, hr⟩ := hthis
  obtain ⟨comparer, hcompares⟩ := hreaches.equals P.equals P.equals_eq
  obtain ⟨handlerType, hmakes⟩ := hreaches.makes P.handlerConstructor P.constructor_eq
  obtain ⟨handles, hhandles, rfl, hpointable⟩ := hreaches.handler
  obtain ⟨accesses, haccesses, hshape, hname⟩ := hreaches.accessor a accessor haccessor
  obtain ⟨rfl, htame, hnotices, hoffered⟩ := hskips.offered
    ⟨hs.hooks.symm ▸ hcompares, hmakes, hhandles, haccesses, hshape⟩ hthis hr hs hsound hpointable hname
    (fun i d hd => hbodiless i d a hd) hhooks
  exact ⟨r, type, fields, u, hthis, hr, hrest, hskips.since, htame, hnotices, hoffered⟩

end BlockContext

/-- A store into a followed field, between a removal from the old object and an addition to the new
one. -/
theorem Heap.mirrored_of_store {m : Module} {links : Set (Token × Token)} (hlinks : m.Links links)
    {l : Token × Token} (hl : l ∈ links) {h h₁ h₂ : Heap} {r : HeapRef} {type : Token}
    {fields : TokenMap Value} {x : Value} (hheap : h.Mirrored m links)
    (hremoved : h.Offered m .remove ⟨some r, l.2⟩ (h.cell r l.1) h₁)
    (hr : h₁.get? r = some (.object type fields))
    (hgiven : (h₁.put r l.1 x).Offered m .add ⟨some r, l.2⟩ ((h₁.put r l.1 x).cell r l.1) h₂) :
    h₂.Mirrored m links := by
  obtain ⟨hsound, hmirrors, hallowed⟩ := hheap
  have hapart := hlinks.apart
  have hbehind : h₁.eventToken? m r ≠ some l.1 := by
    intro hevent
    obtain ⟨t, e, he, htoken⟩ := Heap.eventToken?_eq_some hevent
    exact hapart l hl t e he htoken
  -- behind the removal the field counts as empty
  have hcut : h₁.Mirrors m links (Cells.set h.cell r l.1 .null) := by
    rcases hremoved.handlers with ⟨hno, hsame⟩ | ⟨c, hc, hlists⟩
    · refine hmirrors.congr hsame fun l' hl' p c => ?_
      unfold Cells.set
      split
      · rename_i heq
        rw [heq.1, heq.2]
        simp [hno c]
      · rfl
    · have hone := hmirrors l hl r c
      rw [if_pos hc] at hone
      cases hkept : withoutLast [⟨some r, l.2⟩] (h.handlers m c) with
      | none =>
        rw [count_of_withoutLast_none hkept] at hone
        cases hone
      | some kept =>
        refine hmirrors.cut hlinks.own hl hc hkept fun q => ?_
        rw [hlists q, show EventAccessor.remove.change [⟨some r, l.2⟩] (h.handlers m c) = some kept from hkept,
          Option.getD_some]
  have hput : (h₁.put r l.1 x).Mirrors m links (Cells.set h.cell r l.1 .null) :=
    hcut.congr (fun q => Heap.handlers_put hremoved.sound hr hbehind) fun _ _ _ _ => Iff.rfl
  -- the fields behind the store
  have hcells : ∀ l' ∈ links, ∀ p, h₂.cell p l'.1 = Cells.set h.cell r l.1 x p l'.1 := by
    intro l' hl' p
    rw [hgiven.cells p l'.1 (hapart l' hl'), Heap.cell_put hr]
    unfold Cells.set
    split
    · rfl
    · exact hremoved.cells p l'.1 (hapart l' hl')
  have hstored : (h₁.put r l.1 x).cell r l.1 = some x := by
    rw [Heap.cell_put hr, if_pos ⟨rfl, rfl⟩]
  have hlisted : ∀ c, ∀ i ∈ h₂.handlers m c, ∃ l ∈ links, ∃ p, i = ⟨some p, l.2⟩ := by
    refine hgiven.given hl fun c => ?_
    rw [Heap.handlers_put hremoved.sound hr hbehind]
    exact hremoved.given hl hallowed c
  refine ⟨hgiven.sound, ?_, hlisted⟩
  rcases hgiven.handlers with ⟨hno, hsame⟩ | ⟨c, hc, hlists⟩
  · refine hput.congr hsame fun l' hl' p c => ?_
    rw [hcells l' hl' p]
    rw [hstored] at hno
    unfold Cells.set
    split
    · simp only [Option.some.injEq, reduceCtorEq, iff_false]
      exact fun heq => hno c (by rw [heq])
    · rfl
  · have hjoin : h₂.Mirrors m links ((Cells.set h.cell r l.1 .null).set r l.1 (.ref c)) :=
      hput.join hlinks.own hl (fun q => by simp [Cells.set]) fun q => by
        rw [hlists q]
        rfl
    refine hjoin.congr (fun _ => rfl) fun l' hl' p c' => ?_
    rw [hcells l' hl' p]
    rw [hstored] at hc
    obtain rfl := Option.some.inj hc
    unfold Cells.set
    split <;> rfl

namespace Layout

variable {ctx : BlockContext} {field : Field} {event : Event} {handler : MethodId}
  {called : List String} {before : String → Bool → UInt16}
  {l : Layout ctx (some (field, event, handler)) called [3] before} {i₀ i₁ i₂ i₃ : Instruction}
  {m : Module} {W : Wiring} {token : Token} {serial count : Nat}

theorem mirrored_of_ends {d : Method} {bound : Nat} {f : Frame} {s t : Machine} {v : Value}
    (hlinks : m.Links W.links) (hlink : (field.token, token) ∈ W.links)
    (hcalls : (Restraint.mirrored m W).Calls (Action.invokeAt m bound) (Action.invokeAt m bound))
    (hreaches : ctx.Reaches (Restraint.mirroring m W) field event handler token)
    (hannounces : (Restraint.mirroring m W).Announces ctx)
    (hdirty : ∀ i, ctx.dirtySetter? = some i → (Restraint.mirroring m W).callable i)
    (hops : [i₀, i₁, i₂, i₃].map (·.op) = [.ldarg 0, .ldarg 1, .stfld field, .ret])
    (hlabels : ((l.injected [i₀, i₁, i₂, i₃]).map (·.label)).Perm
      ((List.range' serial count).map .drawn))
    (hfresh : ∀ i ∈ [i₀, i₁, i₂, i₃], ∀ n, serial ≤ n → i.label ≠ .drawn n)
    (hf : (Restraint.mirroring m W).Fits f) (hs : (Restraint.mirroring m W).Tame s)
    (hheap : s.heap.Mirrored m W.links)
    (hends : (⟨m, d⟩ : Site).Ends (Action.invokeAt m bound) (l.weave [i₀, i₁, i₂, i₃]) Site.idle 0 f s
      v t) :
    (Restraint.mirroring m W).Tame t ∧ t.heap.Mirrored m W.links
      ∧ (Restraint.mirroring m W).Trusts v := by
  have hkeeps : ∀ {ops : List Op} {g h : Frame} {x y : Machine},
      (∀ op ∈ ops, (Restraint.mirroring m W).likeness.Allowed op) →
      (Restraint.mirroring m W).Fits g → (Restraint.mirroring m W).Tame x →
      x.heap.Mirrored m W.links → (⟨m, d⟩ : Site).Runs (Action.invokeAt m bound) ops g x h y →
      (Restraint.mirroring m W).Tame y ∧ y.heap.Mirrored m W.links
        ∧ (Restraint.mirroring m W).Fits h := fun hallowed hg hx hmirrored hruns =>
    Restraint.runs_keeping (w := fun _ _ => none) hcalls hallowed hg hx hmirrored hruns
  obtain ⟨add, remove, hadd, hremove, ⟨P, hlastP⟩, ⟨Q, hlastQ⟩⟩ :=
    l.parts_auto (stores_auto hops) hlabels hfresh
  -- the code in front, and the operands of the store
  obtain ⟨g, u, this, x, hruns, hthis, hx, hends⟩ := l.front_of_ends hops hends
  obtain ⟨hs, hheap, hg⟩ := hkeeps (hannounces.allowed_entryOps called before) hf hs hheap hruns
  have hxt : (Restraint.mirroring m W).Trusts x := hg.arguments x (List.mem_of_getElem? hx)
  -- the handler is taken from the old value
  have hspent : (Restraint.mirroring m W).Tame ((u.spent 1).spent 1) := hs.update rfl rfl rfl
  obtain ⟨r, type, fields, z, hthis', hr, hends, hlater, hs, -, hremoved⟩ :=
    hreaches.passes (a := .remove) rfl hlinks.bodiless hremove Q (l.holds_unsubscribe hops) hlastQ hspent
      hheap.sound hends
  obtain ⟨fields, hr⟩ := hlater.object hr
  obtain rfl : this = .ref r := Option.some.inj (hthis.symm.trans hthis')
  -- the store
  obtain ⟨k, y, hruns, hends⟩ := l.store_of_ends hops hends
  obtain ⟨-, hruns⟩ := (Site.runs_cons_of_step (Site.step_stfld (s := z.spent 1)
    (Action.invokeAt m bound) field (f := g) (v := x) hr)).mp hruns
  obtain ⟨rfl, rfl⟩ := Site.runs_nil.mp hruns
  have hstored : (Restraint.mirroring m W).Tame
      { z.spent 1 with heap := z.heap.put r field.token x } :=
    (hs.put hr hxt).update rfl rfl rfl
  have hapart : ∀ t e, m.fieldInLine? t Surface.changedEvent = some e → e.token ≠ field.token :=
    hlinks.apart _ hlink
  have hbehind : z.heap.eventToken? m r ≠ some field.token := by
    intro hevent
    obtain ⟨t, e, he, htoken⟩ := Heap.eventToken?_eq_some hevent
    exact hapart t e he htoken
  -- the handler is given to the new value
  obtain ⟨q, -, -, w, hthis'', -, hends, -, hs, -, hgiven⟩ :=
    hreaches.passes (a := .add) rfl hlinks.bodiless hadd P (l.holds_subscribe hops) hlastP hstored
      (hremoved.sound.put hr hbehind) hends
  obtain rfl : r = q := by
    have := Option.some.inj (hthis.symm.trans hthis'')
    cases this
    rfl
  have hheap : w.heap.Mirrored m W.links :=
    Heap.mirrored_of_store hlinks hlink hheap hremoved hr hgiven
  -- the announcements and the return
  obtain ⟨after, k, y, -, hruns, hreturn⟩ := l.back_of_ends hops hends
  obtain ⟨hs, hheap, hk⟩ := hkeeps (hannounces.allowed_changeOps hdirty called before after) hg hs hheap hruns
  have hfreeret : (Restraint.mirroring m W).likeness.Allowed .ret :=
    Restraint.allowed_plain (fun _ h => by cases h) fun _ h => by cases h
  obtain ⟨hs, hheap, hway⟩ := Restraint.does_keeping (w := fun _ _ => none) hcalls hfreeret hk hs hheap
    hreturn
  cases hway with
  | done hv => exact ⟨hs, hheap, hv⟩

section Announced

variable {R : Restraint m} {subscription : Option (Field × Event × MethodId)} {anchors : List Nat}
  (hannounces : R.Announces ctx) (hdirty : ∀ i, ctx.dirtySetter? = some i → R.callable i)
include hannounces

theorem allowed_prologue {l : Layout ctx subscription called anchors before} :
    ∀ k ∈ l.prologue, R.likeness.Allowed k.op := by
  intro k hk
  have hop : k.op ∈ l.prologue.map (·.op) := List.mem_map_of_mem hk
  rw [l.prologue_ops] at hop
  exact hannounces.allowed_entryOps called before _ hop

include hdirty

theorem allowed_notification {l : Layout ctx subscription called anchors before} {p : Nat}
    (hp : p ∈ anchors) : ∀ k ∈ l.notification p, R.likeness.Allowed k.op := by
  intro k hk
  obtain ⟨after, -, hops⟩ := l.notification_ops p hp
  have hop : k.op ∈ (l.notification p).map (·.op) := List.mem_map_of_mem hk
  rw [hops] at hop
  exact hannounces.allowed_changeOps hdirty called before after _ hop

/-- What is woven into a setter without a subscription is restrained if the announcements are. -/
theorem allowed_injected {l : Layout ctx none called anchors before} {code : Stream} :
    ∀ k ∈ l.injected code, R.likeness.Allowed k.op := by
  intro k hk
  rcases List.mem_append.mp hk with hk | hk
  · exact allowed_prologue hannounces k hk
  · obtain ⟨p, -, hk⟩ := List.mem_flatMap.mp hk
    rw [l.block_eq] at hk
    split at hk
    · exact allowed_notification hannounces hdirty ‹_› k hk
    · cases hk

end Announced

/-- A woven setter whose only store is its third instruction does not lead out of the states with mirrored
fields. -/
theorem bodies_mirrored {anchors : List Nat} {code : Stream}
    {l : Layout ctx (some (field, event, handler)) called anchors before} {i : MethodId} {d : Method}
    {body : Body} {bound : Nat} (hlinks : m.Links W.links) (hlink : (field.token, token) ∈ W.links)
    (hcalls : (Restraint.mirrored m W).Calls (Action.invokeAt m bound) (Action.invokeAt m bound))
    (hreaches : ctx.Reaches (Restraint.mirroring m W) field event handler token)
    (hannounces : (Restraint.mirroring m W).Announces ctx)
    (hdirty : ∀ i, ctx.dirtySetter? = some i → (Restraint.mirroring m W).callable i)
    (hops : code.map (·.op) = [.ldarg 0, .ldarg 1, .stfld field, .ret]) (hanchors : anchors = [3])
    (hlabels : ((l.injected code).map (·.label)).Perm ((List.range' serial count).map .drawn))
    (hfresh : ∀ i ∈ code, ∀ n, serial ≤ n → i.label ≠ .drawn n) (hd : m.method? i = some d)
    (hbody : d.body = some body) (hcode : body.code = l.weave code) (hinstance : d.isStatic = false) :
    (Restraint.mirrored m W).Bodies (Action.invokeAt m bound) (Action.invokeAt m bound) i := by
  subst hanchors
  obtain ⟨i₀, i₁, i₂, i₃, rfl, -⟩ := Stream.eq_of_four hops
  refine Restraint.bodies_of_ends hd hbody hinstance fun hf hs hheap hends => ?_
  rw [hcode] at hends
  exact l.mirrored_of_ends hlinks hlink hcalls hreaches hannounces hdirty hops hlabels hfresh hf hs hheap
    hends

end Layout

end SetterLoom
