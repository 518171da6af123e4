import SetterLoom.Proofs.Weave.Announced

/-!
# What notifying code does

The code behind a store announces one target after the other, and the code in front of everything reads
the values before the change. Where nothing but notifications is woven, both only change the slots that
they store into, and the first of them tells each target that the setter does not announce by itself once.

* `runs_targets`: the code behind a store.
* `runs_entry`: the code in front of everything.
-/

namespace SetterLoom
set_option autoImplicit false

/-- The second frame differs from the first one at most in the given slots. -/
structure Frame.Beside (stored : List UInt16) (f g : Frame) : Prop where
  arguments : g.arguments = f.arguments
  stack : g.stack = f.stack
  length : g.slots.length = f.slots.length
  slots : ∀ k, (∀ i ∈ stored, i.toNat ≠ k) → g.slots[k]? = f.slots[k]?

namespace Frame.Beside

variable {stored stored' : List UInt16} {f g h : Frame}

theorem refl (f : Frame) : f.Beside [] f := ⟨rfl, rfl, rfl, fun _ _ => rfl⟩

theorem trans (hfg : f.Beside stored g) (hgh : g.Beside stored' h) :
    f.Beside (stored ++ stored') h where
  arguments := hgh.arguments.trans hfg.arguments
  stack := hgh.stack.trans hfg.stack
  length := hgh.length.trans hfg.length
  slots := fun k hk => (hgh.slots k fun i hi => hk i (List.mem_append_right _ hi)).trans
    (hfg.slots k fun i hi => hk i (List.mem_append_left _ hi))

theorem set (f : Frame) (slot : UInt16) (v : Value) :
    f.Beside [slot] { f with slots := f.slots.set slot.toNat v } := by
  refine ⟨rfl, rfl, List.length_set .., fun k hk => ?_⟩
  have hne : slot.toNat ≠ k := hk slot List.mem_cons_self
  exact List.getElem?_set_ne hne

theorem slot_of_set {f g : Frame} {slot : UInt16} {v : Value}
    (h : Frame.Beside stored { f with slots := f.slots.set slot.toNat v } g) (hin : slot.toNat < f.slots.length)
    (hnot : slot ∉ stored) : g.slots[slot.toNat]? = some v := by
  rw [h.slots]
  · show (f.slots.set _ v)[_]? = _
    rw [List.getElem?_set_self hin]
  · intro i hi heq
    rw [UInt16.toNat_inj.mp heq] at hi
    exact hnot hi

end Frame.Beside

namespace BlockContext

variable {ctx : BlockContext} {target : Property} {c : Site} (bound : Nat) {f : Frame}
  {s : Machine} {r : HeapRef} {type : Token} {fields : TokenMap Value} {fieldOf : String → Field}
  {before : String → Bool → UInt16} {held : String → Value}

/-- Objects of the type announce their changes through the invoker, and the values that it takes are
those of the given fields. -/
structure Ready (ctx : BlockContext) (m : Module) (hooks : HookTable) (type : Token)
    (fieldOf : String → Field) : Prop where
  types : ctx.module.types = m.types
  announces : ctx.type.invoker.Announces m hooks type
  reads : ctx.type.invoker.valueForm?.isSome → ∀ t ∈ ctx.property.targets,
    t.ReadsFrom (fieldOf t.name) m hooks type

/-- The event tells a change of the target, with the value held from before and the field's value. -/
def Tells (ctx : BlockContext) (c : Site) (heap : Heap) (r : HeapRef) (held : String → Value)
    (fields : TokenMap Value) (fieldOf : String → Field) (target : Property) (e : TraceEvent) :
    Prop :=
  ∃ after, e = .notified r target.name
      (ctx.type.invoker.valueForm?.map fun _ => held target.name)
      (ctx.type.invoker.valueForm?.map fun _ => after)
    ∧ ∀ boxed, ctx.type.invoker.valueForm? = some boxed →
      heap.Shows c.module target.type boxed (c.fieldValue fields (fieldOf target.name)) after

theorem Tells.later {heap heap' : Heap} {e : TraceEvent}
    (h : ctx.Tells c heap r held fields fieldOf target e)
    (hheap : ∀ r o, heap.get? r = some o → heap'.get? r = some o) :
    ctx.Tells c heap' r held fields fieldOf target e := by
  obtain ⟨after, he, hshows⟩ := h
  exact ⟨after, he, fun boxed hform => (hshows boxed hform).later hheap⟩

theorem raiseCost_le (invoker : Invoker) : invoker.raiseCost ≤ 9 := by
  cases invoker <;> simp [Invoker.raiseCost]

theorem storedSlots_announceOps (after : UInt16) :
    storedSlots (ctx.announceOps target before after)
      = storedSlots (ctx.valueOps target after) := by
  have hraise : ∀ k k', storedSlots (ctx.raiseOps target k k') = [] := by
    intro k k'
    obtain ⟨types, hop⟩ := ctx.callOp_eq ctx.type.invoker.method target
    unfold raiseOps
    rw [hop]
    cases ctx.type.invoker <;> rfl
  rw [announceOps_eq, storedSlots_append, hraise, List.append_nil]

theorem eq_of_mem_storedSlots_announceOps {after i : UInt16}
    (h : i ∈ storedSlots (ctx.announceOps target before after)) :
    i = after ∧ ctx.type.invoker.valueForm?.isSome := by
  rw [storedSlots_announceOps] at h
  unfold valueOps at h
  cases hform : ctx.type.invoker.valueForm? with
  | none =>
    rw [hform] at h
    exact absurd h List.not_mem_nil
  | some boxed =>
    rw [hform, Option.elim_some, storedSlots_readOps] at h
    exact ⟨List.mem_singleton.mp h, rfl⟩

/-- What holds of the slots before a target is announced. -/
structure Held (ctx : BlockContext) (before : String → Bool → UInt16) (held : String → Value)
    (target : Property) (after : UInt16) (f : Frame) : Prop where
  value : ∀ boxed, ctx.type.invoker.valueForm? = some boxed →
    f.slots[(before target.name boxed).toNat]? = some (held target.name)
  inside : ctx.type.invoker.valueForm?.isSome → after.toNat < f.slots.length
  apart : ∀ boxed, ctx.type.invoker.valueForm? = some boxed →
    after.toNat ≠ (before target.name boxed).toNat

/-- What holds of the slots before the given targets are announced, each with its slot for the value
after the change. -/
structure AllHeld (ctx : BlockContext) (before : String → Bool → UInt16) (held : String → Value)
    (pairs : List (Property × AfterSlots)) (f : Frame) : Prop where
  target : ∀ t ∈ pairs, t.1 ∈ ctx.property.targets
  value : ∀ t ∈ pairs, ∀ boxed, ctx.type.invoker.valueForm? = some boxed →
    f.slots[(before t.1.name boxed).toNat]? = some (held t.1.name)
  inside : ∀ t ∈ pairs, ctx.type.invoker.valueForm?.isSome → t.2.call.toNat < f.slots.length
  apart : ∀ t ∈ pairs, ∀ u ∈ pairs, ∀ boxed, ctx.type.invoker.valueForm? = some boxed →
    t.2.call.toNat ≠ (before u.1.name boxed).toNat

theorem AllHeld.head {t : Property × AfterSlots} {rest : List (Property × AfterSlots)}
    (h : ctx.AllHeld before held (t :: rest) f) : ctx.Held before held t.1 t.2.call f :=
  ⟨h.value t List.mem_cons_self, h.inside t List.mem_cons_self,
    h.apart t List.mem_cons_self t List.mem_cons_self⟩

theorem AllHeld.tail {t : Property × AfterSlots} {rest : List (Property × AfterSlots)} {g : Frame}
    (h : ctx.AllHeld before held (t :: rest) f)
    (hg : f.Beside (storedSlots (ctx.announceOps t.1 before t.2.call)) g) :
    ctx.AllHeld before held rest g := by
  refine ⟨fun u hu => h.target u (List.mem_cons_of_mem _ hu), fun u hu boxed hform => ?_,
    fun u hu hform => ?_, fun u hu u' hu' => h.apart u (List.mem_cons_of_mem _ hu) u'
      (List.mem_cons_of_mem _ hu')⟩
  · rw [hg.slots]
    · exact h.value u (List.mem_cons_of_mem _ hu) boxed hform
    · intro i hi
      have hvalue : ctx.valueOps t.1 t.2.call = ctx.readOps t.1 boxed t.2.call := by
        unfold valueOps
        rw [hform]
        rfl
      rw [storedSlots_announceOps, hvalue, storedSlots_readOps] at hi
      rw [List.mem_singleton.mp hi]
      exact h.apart t List.mem_cons_self u (List.mem_cons_of_mem _ hu) boxed hform
  · rw [hg.length]
    exact h.inside u (List.mem_cons_of_mem _ hu) hform

section Announcing

variable (hready : ctx.Ready c.module s.hooks type fieldOf)
  (hr : s.heap.get? r = some (.object type fields)) (hunheard : s.Unheard c.module r)
  (hthis : f.arguments[0]? = some (.ref r)) (hdepth : s.depth < maxDepth)
include hready hr hunheard hthis hdepth

theorem runs_announce {after : UInt16} (htarget : target ∈ ctx.property.targets)
    (hheld : ctx.Held before held target after f) (hroom : s.executed + 16 ≤ s.limit) :
    ∃ g T e, c.Runs (Action.invokeAt c.module (bound + 1))
        (ctx.announceOps target before after) f s g T
      ∧ f.Beside (storedSlots (ctx.announceOps target before after)) g
      ∧ s.Extends c.module T [e] ∧ T.executed ≤ s.executed + 16
      ∧ ctx.Tells c T.heap r held fields fieldOf target e := by
  have hcost := raiseCost_le ctx.type.invoker
  rw [storedSlots_announceOps, announceOps_eq]
  cases hform : ctx.type.invoker.valueForm? with
  | none =>
    -- an invoker without values does not ask for any slot
    have hnone : ctx.type.invoker.valueForm?.isSome → False := by
      rw [hform]
      nofun
    have hslot : ∀ {k : UInt16}, ctx.type.invoker.valueForm?.isSome →
        f.slots[k.toNat]? = some .void := fun h => (hnone h).elim
    obtain ⟨T, hT, hexecuted, hruns⟩ := runs_raise bound hr hunheard hthis target hready.announces
      (hslot (k := before target.name false)) (hslot (k := after))
    have hvalue : ctx.valueOps target after = [] := by
      unfold valueOps
      rw [hform]
      rfl
    rw [hform, Option.map_none] at hT
    refine ⟨f, T, _, ?_, ?_, hT, by omega, .void, ?_, fun boxed hboxed => ?_⟩
    · rw [hvalue]
      exact (hruns f T).mpr ⟨hdepth, by omega, rfl, rfl⟩
    · rw [hvalue]
      exact .refl f
    · rw [hform]
      rfl
    · rw [hform] at hboxed
      cases hboxed
  | some boxed =>
    have hisSome : ctx.type.invoker.valueForm?.isSome := by rw [hform]; rfl
    have hafter := hheld.inside hisSome
    obtain ⟨a, x, hread, hx, hcounted, hshows⟩ := runs_read bound
      (hready.reads hisSome target htarget) hr hthis hdepth boxed hready.types hafter (by omega)
    let g : Frame := { f with slots := f.slots.set after.toNat a }
    have hrx := hx.heap r _ hr
    -- the slot of the value before is not the one that is stored into now
    have hb : g.slots[(before target.name boxed).toNat]? = some (held target.name) := by
      show (f.slots.set after.toNat a)[_]? = _
      rw [List.getElem?_set_ne (hheld.apart boxed hform)]
      exact hheld.value boxed hform
    have ha : g.slots[after.toNat]? = some a := by
      show (f.slots.set after.toNat a)[_]? = _
      rw [List.getElem?_set_self hafter]
    have hannounces : ctx.type.invoker.Announces c.module x.hooks type := by
      rw [hx.hooks]
      exact hready.announces
    obtain ⟨T, hT, hexecuted, hruns⟩ := runs_raise bound (f := g) hrx
      (Action.unheard_of_heap hunheard (hrx.trans hr.symm)) hthis target hannounces
      (fun _ => hb) (fun _ => ha)
    have hvalue : ctx.valueOps target after = ctx.readOps target boxed after := by
      unfold valueOps
      rw [hform]
      rfl
    have hxdepth : x.depth < maxDepth := by
      rw [hx.depth]
      exact hdepth
    have hxroom : x.executed + ctx.type.invoker.raiseCost ≤ x.limit := by
      rw [hx.limit]
      omega
    refine ⟨g, T, _, ?_, ?_, hx.trans hT, by omega, a, ?_, fun boxed' hboxed => ?_⟩
    · rw [hvalue, Option.getD_some]
      exact hread.append ((hruns g T).mpr ⟨hxdepth, hxroom, rfl, rfl⟩)
    · rw [hvalue, storedSlots_readOps]
      exact .set f after a
    · rw [hform]
    · obtain rfl := Option.some.inj (hform.symm.trans hboxed)
      exact hshows.later fun q o hq => hT.heap q o hq

omit hready hr hunheard hthis hdepth in
theorem runs_targets {pairs : List (Property × AfterSlots)}
    (hready : ctx.Ready c.module s.hooks type fieldOf)
    (hr : s.heap.get? r = some (.object type fields)) (hunheard : s.Unheard c.module r)
    (hthis : f.arguments[0]? = some (.ref r)) (hdepth : s.depth < maxDepth)
    (hheld : ctx.AllHeld before held pairs f)
    (hroom : 16 * pairs.length ≤ s.limit - s.executed) :
    ∃ g T events, c.Runs (Action.invokeAt c.module (bound + 1))
        (pairs.flatMap fun t => ctx.announceOps t.1 before t.2.call) f s g T
      ∧ f.Beside
        (storedSlots (pairs.flatMap fun t => ctx.announceOps t.1 before t.2.call)) g
      ∧ s.Extends c.module T events ∧ T.executed ≤ s.executed + 16 * pairs.length
      ∧ List.Forall₂ (fun t e => ctx.Tells c T.heap r held fields fieldOf t.1 e) pairs events := by
  -- each announcement leaves the slots of the ones behind it as they
  -- were, and takes at most sixteen instructions
  induction pairs generalizing f s with
  | nil => exact ⟨f, s, [], .nil f s, .refl f, .refl _ s, Nat.le_refl _, .nil⟩
  | cons t rest ih =>
    rw [List.length_cons, Nat.mul_add, Nat.mul_one] at hroom
    obtain ⟨g, x, e, hruns, hg, hx, hcounted, htells⟩ :=
      runs_announce bound hready hr hunheard hthis hdepth
        (hheld.target t List.mem_cons_self) hheld.head (by omega)
    have hrx := hx.heap r _ hr
    have hlimit := hx.limit
    obtain ⟨h, T, events, hruns', hh, hT, hcounted', htells'⟩ :=
      ih (hx.hooks ▸ hready) hrx (Action.unheard_of_heap hunheard (hrx.trans hr.symm))
        (hg.arguments ▸ hthis) (hx.depth ▸ hdepth) (hheld.tail hg) (by omega)
    refine ⟨h, T, e :: events, ?_, ?_, hx.trans hT, ?_, .cons (htells.later hT.heap) htells'⟩
    · rw [List.flatMap_cons]
      exact hruns.append hruns'
    · rw [List.flatMap_cons, storedSlots_append]
      exact hg.trans hh
    · rw [List.length_cons]
      omega

end Announcing

/-! ## The values before the change -/

variable (before fieldOf) in
theorem runs_entry (readings : List Reading) (htypes : ctx.module.types = c.module.types)
    (hreads : ∀ q ∈ readings, q.1.ReadsFrom (fieldOf q.1.name) c.module s.hooks type)
    (hr : s.heap.get? r = some (.object type fields)) (hthis : f.arguments[0]? = some (.ref r))
    (hdepth : s.depth < maxDepth)
    (hinside : ∀ q ∈ readings, (before q.1.name q.2).toNat < f.slots.length)
    (hnodup : (readings.map fun q => before q.1.name q.2).Nodup)
    (hroom : 7 * readings.length ≤ s.limit - s.executed) :
    ∃ g T, c.Runs (Action.invokeAt c.module (bound + 1))
        (readings.flatMap fun q => ctx.readOps q.1 q.2 (before q.1.name q.2)) f s g T
      ∧ f.Beside (readings.map fun q => before q.1.name q.2) g
      ∧ s.Extends c.module T [] ∧ T.executed ≤ s.executed + 7 * readings.length
      ∧ ∀ q ∈ readings, ∃ v, g.slots[(before q.1.name q.2).toNat]? = some v
        ∧ T.heap.Shows c.module q.1.type q.2 (c.fieldValue fields (fieldOf q.1.name)) v := by
  induction readings generalizing f s with
  | nil => exact ⟨f, s, .nil f s, .refl f, .refl _ s, Nat.le_refl _, nofun⟩
  | cons q rest ih =>
    rw [List.length_cons, Nat.mul_add, Nat.mul_one] at hroom
    rw [List.map_cons, List.nodup_cons] at hnodup
    have hslot := hinside q List.mem_cons_self
    obtain ⟨v, x, hread, hx, hcounted, hshows⟩ := runs_read bound
      (hreads q List.mem_cons_self) hr hthis hdepth q.2 htypes hslot (by omega)
    let g : Frame := { f with slots := f.slots.set (before q.1.name q.2).toNat v }
    have hg : f.Beside [before q.1.name q.2] g := .set f _ v
    have hlimit := hx.limit
    obtain ⟨h, T, hruns, hh, hT, hcounted', hall⟩ := ih (f := g)
      (fun q' hq' => hx.hooks ▸ hreads q' (List.mem_cons_of_mem _ hq')) (hx.heap r _ hr) hthis
      (hx.depth ▸ hdepth)
      (fun q' hq' => hg.length ▸ hinside q' (List.mem_cons_of_mem _ hq')) hnodup.2 (by omega)
    refine ⟨h, T, ?_, hg.trans hh, hx.trans hT, ?_, fun q' hq' => ?_⟩
    · rw [List.flatMap_cons]
      exact hread.append hruns
    · rw [List.length_cons]
      omega
    -- a value that was read stays in its slot, since no later one has the same slot
    · rcases List.mem_cons.mp hq' with rfl | hmem
      · exact ⟨v, hh.slot_of_set hslot hnodup.1, hshows.later hT.heap⟩
      · exact hall q' hmem

/-! ## Where only notifications are woven -/

/-- The targets that the setter does not announce by itself. -/
def promised (ctx : BlockContext) : List Property :=
  ctx.property.targets.filter fun t => !ctx.property.announces t.name

theorem changeOps_eq (hhooks : ctx.options.changeHooks = false)
    (hflag : ctx.options.dirtyFlag = false) (called : List String) (after : List AfterSlots) :
    ctx.changeOps called before after
      = ((ctx.property.targets.zip after).filter fun t =>
          !ctx.property.announces t.1.name).flatMap
        fun t => ctx.announceOps t.1 before t.2.call := by
  have hdirty : ctx.dirtyFlagOps = [] := by
    unfold dirtyFlagOps dirtySetter?
    rw [hflag]
    rfl
  unfold changeOps targetsOps
  rw [hdirty, List.nil_append]
  induction ctx.property.targets.zip after with
  | nil => rfl
  | cons t rest ih =>
    have hnone : ctx.hookFor? called t.1 = none := by
      unfold hookFor?
      rw [hhooks]
      rfl
    rw [List.flatMap_cons, ih, targetOps, hnone, List.filter_cons]
    cases ctx.property.announces t.1.name with
    | true => rfl
    | false => rw [if_neg Bool.false_ne_true, Bool.not_false, if_pos rfl, List.flatMap_cons]; rfl

end BlockContext

end SetterLoom
