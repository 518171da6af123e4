import SetterLoom.Proofs.Machine.Throughout
import SetterLoom.Proofs.Module.Numbered
import SetterLoom.Proofs.Weave.Again

/-!
# Nothing is mistaken for something else

The registry keeps types by their tokens, and a machine keeps the methods that it knows by theirs. So a later
type would take the place of an earlier one with the same token, and a pointer to one method would call another.
Neither happens as long as the rows of types and methods last, whatever is declared and woven, and whatever a
machine is asked for in between.

* `Weaving.continuing_all`: a pass leads to a later module.
* `Bench.Leads`, `Deed.leads`, `Bench.leads_after`: what one deed and several ones lead to.
* `Bench.tokens_unmistaken`: when tokens are in order, and what they stand for until then.
-/

namespace SetterLoom
set_option autoImplicit false

/-! ## Passes -/

namespace Weaving

variable {options : Options} {resolver : Resolver} {type : TypePlan} {plan : PropertyPlan}

theorem continues_declareHandler {ctx : BlockContext} {i : MethodId} {m : Module}
    (h : ctx.declareHandler = .ok (i, m)) : ctx.module.Continues m := by
  obtain ⟨object, arguments, draft, -, -, -, hdeclared⟩ := declareHandler_ok h
  have hserial : ctx.module.Retouched { ctx.module with serial := draft.serial } :=
    Module.retouched_of_entries rfl rfl rfl rfl rfl
  have hcontinues := hserial.continues.trans (MethodSpec.continues_declareOn
    { name := delegateName ctx.property.property.name
      params := [⟨"s", object⟩, ⟨"e", arguments⟩]
      body := some draft.body }
    ctx.type.type { ctx.module with serial := draft.serial })
  obtain ⟨rfl, rfl⟩ := Prod.mk.inj hdeclared
  exact hcontinues

theorem continues_setter {w w' : Workpiece} {result : Except Error WovenSetter}
    (hrun : (setter options resolver type plan).run.run w = (result, w')) :
    w.module.Continues w'.module := by
  rcases setter_leaves hrun with hsame | ⟨i, -, -, n, draft, -, -, -, hn, -, hmodule⟩
  · rw [hsame]
    exact .refl _
  · have hdeclared : w.module.Continues n := by
      rcases hn with rfl | ⟨j, hdeclare⟩
      · exact .refl _
      · exact continues_declareHandler hdeclare
    have hbody : n.Retouched (n.setBody i (some draft.body)) := n.retouched_updateMethod i fun _ => rfl
    have hserial : (n.setBody i (some draft.body)).Retouched
        { n.setBody i (some draft.body) with serial := draft.serial } :=
      Module.retouched_of_entries rfl rfl rfl rfl rfl
    rw [hmodule]
    exact hdeclared.trans (hbody.trans hserial).continues

/-- A pass leads to a later module, also if it fails. -/
theorem continuing_all (options : Options) (resolver : Resolver) (plans : List TypePlan) :
    Steps.Within (fun w w' => w.module.Continues w'.module) (all options resolver plans) := by
  let R : Workpiece → Workpiece → Prop := fun w w' => w.module.Continues w'.module
  have hrefl : ∀ w, R w w := fun w => .refl _
  have htrans : ∀ {w w' w'' : Workpiece}, R w w' → R w' w'' → R w w'' := fun h h' => h.trans h'
  have hproperty (typeName : String) (type : TypePlan) (s : WeaveSummary) (plan : PropertyPlan) :
      Steps.Within R (property options resolver typeName type s plan) := by
    intro w
    rcases property_cases (Prod.eta ((property options resolver typeName type s plan).run.run w)).symm
      with ⟨-, -, hsame⟩ | ⟨-, ⟨e, hchecked, -⟩ | ⟨woven, w₁, i, hchecked, -, -, hmark⟩⟩
    · rw [hsame]
      exact hrefl w
    · obtain ⟨result, hsetter⟩ := exists_setter_run hchecked
      exact continues_setter hsetter
    · obtain ⟨result, hsetter⟩ := exists_setter_run hchecked
      have hmarked : w₁.module.Retouched (Workpiece.mark w₁ i).module :=
        w₁.module.retouched_updateMethod i fun _ => rfl
      rw [hmark]
      exact htrans (continues_setter hsetter) hmarked.continues
  refine Steps.within_foldlM (R := R) hrefl htrans (fun s type => ?_) plans ({} : WeaveSummary)
  unfold Weaving.type
  exact Steps.within_bind (R := R) htrans hrefl fun w =>
    Steps.within_foldlM (R := R) hrefl htrans (fun s plan => hproperty _ type s plan) _ _

end Weaving

/-! ## Rows that are drawn for nothing -/

namespace Module

variable {m : Module} {spare : Table → Nat}

theorem numbered_bare (name : String) : Numbered (fun _ => 0) (bare name) where
  typeRow := rfl
  methodRow := rfl
  types _ := ⟨fun _ _ hk => (nomatch hk), fun _ _ _ _ _ hk => (nomatch hk)⟩
  registered _ _ _ hk := nomatch hk
  methods _ := ⟨fun _ _ hk => (nomatch hk), fun _ _ _ _ _ hk => (nomatch hk)⟩

theorem Numbered.draw (h : Numbered spare m) (table : Table) :
    Numbered (fun t => spare t + [table].count t) (m.drawToken table).2 := by
  have hrow (t : Table) {n : Nat} (hn : m.rows.get t = .ofNat n) :
      (m.drawToken table).2.rows.get t = .ofNat (n + [table].count t) := by
    show (m.rows.bump table).get t = _
    rw [RowCounts.get_bump, List.count_singleton]
    by_cases ht : t = table
    · rw [if_pos ht, if_pos (beq_iff_eq.mpr ht.symm), hn, ofNat_succ]
    · rw [if_neg ht, if_neg fun heq => ht (beq_iff_eq.mp heq).symm, hn]
      rfl
  have htypes : (m.drawToken table).2.typeRows (fun t => spare t + [table].count t)
      = m.typeRows spare + [table].count .typeDef := (Nat.add_assoc _ _ _).symm
  have hmethods : (m.drawToken table).2.methodRows (fun t => spare t + [table].count t)
      = m.methodRows spare + [table].count .methodDef := (Nat.add_assoc _ _ _).symm
  refine ⟨?_, ?_, fun hfit => ?_, fun hfit => ?_, fun hfit => ?_⟩
  · rw [htypes]
    exact hrow .typeDef h.typeRow
  · rw [hmethods]
    exact hrow .methodDef h.methodRow
  · rw [htypes] at hfit ⊢
    exact (h.types (by omega)).mono (Nat.le_add_right _ _)
  · rw [htypes] at hfit
    exact h.registered (by omega)
  · rw [hmethods] at hfit ⊢
    exact (h.methods (by omega)).mono (Nat.le_add_right _ _)

theorem Continues.learned {m' : Module} {s : Machine} (h : m.Continues m') (hs : s.Learned m) : s.Learned m' := by
  intro k i hi
  obtain ⟨d, hd, htoken⟩ := hs k i hi
  have hkept := h.methods i.index k (by rw [methodToken?, hd, Option.map_some, htoken])
  exact Option.map_eq_some_iff.mp hkept

end Module

/-! ## Deeds -/

/-- A module, and a machine that runs it. -/
structure Bench where
  module : Module
  machine : Machine

/-- What is done with a module and its machine. -/
inductive Deed where
  /-- A token is drawn for nothing. -/
  | draw (table : Table)
  /-- The types of the runtime surface are added. -/
  | surface
  | external (space name : String) (flavor : Flavor) (base : Option TypeId)
  | type (spec : TypeSpec)
  /-- A method is declared, with a type or without. -/
  | method (spec : MethodSpec) (owner : Option TypeId)
  | weave (weaver : Weaver) (plans : List TypePlan)
  | hook (h : Hook)
  | ask (q : Request)

namespace Deed

/-- What comes of it, whether or not it succeeds. -/
def run : Deed → Bench → Bench
  | .draw table, b => { b with module := (b.module.drawToken table).2 }
  | .surface, b => { b with module := (Declare.runtimeSurface.run.run b.module).2 }
  | .external space name flavor base, b =>
    { b with module := ((Declare.externalType space name flavor base).run.run b.module).2 }
  | .type spec, b => { b with module := (spec.declare.run.run b.module).2 }
  | .method spec none, b => { b with module := (spec.declare b.module).2 }
  | .method spec (some owner), b => { b with module := (spec.declareOn owner b.module).2 }
  | .weave weaver plans, b => { b with module := (weaver.weave plans b.module).2.2 }
  | .hook h, b => { b with machine := b.machine.register h }
  | .ask q, b => { b with machine := ((q.run b.module).run.run b.machine).2 }

/-- The tables of which rows are drawn for nothing. -/
def drawn : Deed → List Table
  | .draw table => [table]
  | _ => []

/-- The rows that are drawn for nothing. -/
def spare (deeds : List Deed) (table : Table) : Nat := (deeds.flatMap drawn).count table

end Deed

namespace Bench

/-- A new module, and a machine that knows no methods. -/
def fresh (name : String) (hooks : HookTable) (limit : Nat) : Bench := ⟨.bare name, { hooks, limit }⟩

/-- What comes of several deeds. -/
def after (b : Bench) (deeds : List Deed) : Bench := deeds.foldl (fun b deed => deed.run b) b

/-- Entries have their tokens still, rows are accounted for, and known tokens stand for methods that have them. -/
structure Leads (drawn : List Table) (b b' : Bench) : Prop where
  types : ∀ i k, b.module.typeToken? i = some k → b'.module.typeToken? i = some k
  numbered : ∀ spare, Module.Numbered spare b.module →
    Module.Numbered (fun t => spare t + drawn.count t) b'.module
  learned : b.machine.Learned b.module → b'.machine.Learned b'.module

variable {b b' b'' : Bench} {drawn drawn' : List Table}

theorem Leads.refl (b : Bench) : b.Leads [] b := ⟨fun _ _ => id, fun _ => id, id⟩

theorem Leads.trans (h : b.Leads drawn b') (h' : b'.Leads drawn' b'') : b.Leads (drawn ++ drawn') b'' where
  types i k hk := h'.types i k (h.types i k hk)
  numbered spare hb := by
    have hlast := h'.numbered _ (h.numbered spare hb)
    simpa only [List.count_append, Nat.add_assoc] using hlast
  learned hb := h'.learned (h.learned hb)

theorem leads_of_continues {m : Module} (h : b.module.Continues m) : b.Leads [] { b with module := m } :=
  ⟨h.types, h.numbered, h.learned⟩

end Bench

theorem Deed.leads (deed : Deed) (b : Bench) : b.Leads deed.drawn (deed.run b) := by
  cases deed with
  | draw table => exact ⟨fun _ _ => id, fun _ hb => hb.draw table, id⟩
  | surface => exact Bench.leads_of_continues (Declare.continuing_runtimeSurface b.module)
  | external space name flavor base =>
    exact Bench.leads_of_continues (Declare.continuing_bareType space name flavor true base b.module)
  | type spec => exact Bench.leads_of_continues (spec.continuing_declare b.module)
  | method spec owner =>
    cases owner with
    | none => exact Bench.leads_of_continues (spec.continues_declare b.module)
    | some owner => exact Bench.leads_of_continues (spec.continues_declareOn owner b.module)
  | weave weaver plans =>
    exact Bench.leads_of_continues
      (Weaving.continuing_all weaver.options weaver.resolver plans ⟨b.module, weaver.capabilities⟩)
  | hook h => exact ⟨fun _ _ => id, fun _ => id, id⟩
  | ask q => exact ⟨fun _ _ => id, fun _ => id, fun hb => hb.run q⟩

namespace Bench

theorem leads_after (deeds : List Deed) (b : Bench) : b.Leads (deeds.flatMap Deed.drawn) (b.after deeds) := by
  induction deeds generalizing b with
  | nil => exact .refl b
  | cons deed rest ih => exact (deed.leads b).trans (ih (deed.run b))

theorem after_append (b : Bench) (deeds later : List Deed) :
    b.after (deeds ++ later) = (b.after deeds).after later := List.foldl_append

section Fresh

variable (name : String) (hooks : HookTable) (limit : Nat)

theorem numbered_after (deeds : List Deed) :
    Module.Numbered (Deed.spare deeds) ((fresh name hooks limit).after deeds).module := by
  have hlast := (leads_after deeds (fresh name hooks limit)).numbered _ (Module.numbered_bare name)
  simp only [Nat.zero_add] at hlast
  exact hlast

theorem learned_after (deeds : List Deed) :
    ((fresh name hooks limit).after deeds).machine.Learned ((fresh name hooks limit).after deeds).module :=
  (leads_after deeds _).learned fun _ _ hi => nomatch hi

end Fresh

/-- Tokens that are drawn are in order exactly as long as no table runs out of rows. From a new module on, types
and methods ascend as they were declared as long as their rows last, every type stays registered under its
token, and what a machine knows under the token of a method is that method. -/
theorem tokens_unmistaken (m : Module) (ts : List Table) (name : String) (hooks : HookTable) (limit : Nat)
    (built later : List Deed) :
    (Module.InOrder ts (m.drawAll ts).1 ↔ ∀ t, m.lastRow t + ts.count t < Token.rowLimit)
    ∧ let b := (fresh name hooks limit).after built
      let b' := b.after later
      (b'.module.typeRows (Deed.spare (built ++ later)) < Token.rowLimit →
        (∀ i k, b.module.typeToken? i = some k →
          b'.module.typeToken? i = some k ∧ b'.module.registry.get? k = some ⟨i⟩)
        ∧ ∀ i j k l, i < j → b'.module.typeToken? i = some k → b'.module.typeToken? j = some l →
          k.value < l.value)
      ∧ (b'.module.methodRows (Deed.spare (built ++ later)) < Token.rowLimit →
        (∀ i j k l, i < j → b'.module.methodToken? i = some k → b'.module.methodToken? j = some l →
          k.value < l.value)
        ∧ ∀ i j k, b'.module.methodToken? i = some k → b'.machine.functions.get? k = some j → j = ⟨i⟩) := by
  refine ⟨Module.inOrder_drawAll_iff, ?_⟩
  intro b b'
  have hafter : (fresh name hooks limit).after (built ++ later) = b' := after_append _ built later
  have hnumbered := numbered_after name hooks limit (built ++ later)
  have hlearned := learned_after name hooks limit (built ++ later)
  rw [hafter] at hnumbered hlearned
  refine ⟨fun hfit => ⟨fun i k hk => ?_, (hnumbered.types hfit).ordered⟩, fun hfit => ?_⟩
  · have hkept := (leads_after later b).types i k hk
    exact ⟨hkept, hnumbered.registered hfit i k hkept⟩
  · have hascending := hnumbered.methods hfit
    refine ⟨hascending.ordered, fun i j k hk hj => ?_⟩
    -- the method that is known has the token, and only one method has it
    obtain ⟨d, hd, htoken⟩ := hlearned k j hj
    have hk' : b'.module.methodToken? j.index = some k := by
      rw [Module.methodToken?, hd, Option.map_some, htoken]
    exact congrArg MethodId.mk (hascending.injective hk' hk)

/-- A type with a method that does nothing. -/
def person : TypeSpec where
  space := "Sample"
  name := "Person"
  members := [.method
    { name := "Greet", modifiers := .staticBit, body := some (.ofCode [⟨.written 0, .ret⟩]) }]

/-- The type was declared. -/
def declared : Bench := (fresh "Sample" [] 100).after [.surface, .type person]

/-- What comes then: a row is drawn, the type is declared once more, and the first method is called. -/
def repeated : List Deed := [.draw .typeDef, .type person, .ask (.invoke ⟨8⟩ none [])]

theorem tokens_unmistaken_person :
    declared.module.typeToken? 12 = some ⟨0x0200000D⟩
      ∧ (declared.after repeated).module.typeToken? 13 = some ⟨0x0200000F⟩
      ∧ (declared.after repeated).module.registry.get? ⟨0x0200000D⟩ = some ⟨12⟩
      ∧ (declared.after repeated).module.methodToken? 8 = some ⟨0x06000009⟩
      ∧ ((declared.after repeated).machine.functions.get? ⟨0x06000009⟩).isSome
      ∧ ∀ j, (declared.after repeated).machine.functions.get? ⟨0x06000009⟩ = some j → j = ⟨8⟩ := by
  obtain ⟨-, htypes, hmethods⟩ :=
    tokens_unmistaken (.bare "Sample") [] "Sample" [] 100 [.surface, .type person] repeated
  have htoken : declared.module.typeToken? 12 = some ⟨0x0200000D⟩ := by decide +kernel
  have hmethod : (declared.after repeated).module.methodToken? 8 = some ⟨0x06000009⟩ := by decide +kernel
  have hkept := (htypes (by decide +kernel)).1 12 _ htoken
  have hknown := (hmethods (by decide +kernel)).2 8
  exact ⟨htoken, by decide +kernel, hkept.2, hmethod, by decide +kernel, fun j => hknown j _ hmethod⟩

/-! ## Behind the last row -/

/-- An interface without members. -/
def marker (name : String) : TypeSpec where
  space := "Sample"
  name
  kind := .interfaceType

theorem registry_marker (name : String) (m : Module) : ((marker name).declare.run.run m).2.registry
    = m.registry.insert m.nextToken (marker name).fullName ⟨m.types.size⟩ := by
  have hbase : (marker name).baseType.run.run m = (.ok none, m) := rfl
  rw [TypeSpec.declare_run hbase]
  exact (marker name).registry_opening none m

theorem after_draws (b : Bench) (ts : List Table) :
    b.after (ts.map .draw) = { b with module := (b.module.drawAll ts).2 } := by
  induction ts generalizing b with
  | nil => rfl
  | cons t ts ih => exact ih _

/-- One type, in a new module. -/
def marked : Bench := (fresh "Sample" [] 0).after [.type (marker "First")]

/-- All other rows are drawn, and then another type is declared. -/
def wrapped : List Deed :=
  (List.replicate (Token.rowLimit - 1) Table.typeDef).map Deed.draw ++ [Deed.type (marker "Second")]

/-- When all rows of a table have been drawn, its tokens come again, and a type that is declared then is
registered in the place of the first one. -/
theorem type_replaced :
    ¬ Module.InOrder (List.replicate Token.rowLimit .typeDef)
        ((Module.bare "Sample").drawAll (List.replicate Token.rowLimit .typeDef)).1
      ∧ marked.module.typeToken? 0 = some ⟨0x02000001⟩
      ∧ marked.module.registry.get? ⟨0x02000001⟩ = some ⟨0⟩
      ∧ (marked.after wrapped).module.registry.get? ⟨0x02000001⟩ = some ⟨1⟩ := by
  refine ⟨fun h => ?_, by decide +kernel, by decide +kernel, ?_⟩
  · have hfit := Module.inOrder_drawAll_iff.mp h .typeDef
    rw [List.count_replicate_self] at hfit
    exact absurd hfit (Nat.not_lt_of_le (Nat.le_add_left _ _))
  · let ts := List.replicate (Token.rowLimit - 1) Table.typeDef
    obtain ⟨rows, hrows⟩ := Module.drawAll_rows ts marked.module
    have hlast : rows.typeDef.toNat % Token.rowLimit = 0 := by
      have hdrawn := Module.lastRow_drawAll ts marked.module .typeDef
      rw [hrows, List.count_replicate_self] at hdrawn
      exact hdrawn
    have htoken : Token.ofRow .typeDef (rows.typeDef + 1) = Token.ofRow .typeDef 1 := by
      refine Token.ofRow_eq_iff.mpr ⟨rfl, ?_⟩
      rw [UInt32.toNat_add]
      simp only [Token.rowLimit, UInt32.reduceToNat] at hlast ⊢
      omega
    have hafter : (marked.after wrapped).module.registry
        = marked.module.registry.insert (Token.ofRow .typeDef 1) (marker "Second").fullName ⟨1⟩ := by
      rw [wrapped, after_append, after_draws, hrows, ← htoken]
      exact registry_marker "Second" { marked.module with rows }
    have hfirst : (⟨0x02000001⟩ : Token) = Token.ofRow .typeDef 1 := by decide
    rw [hafter, Registry.get?_insert, if_pos hfirst]

end Bench

end SetterLoom
