import SetterLoom.Proofs.Weave.Grown

/-!
# Answers that are kept

The cache of a weaver keeps what it was told about capabilities of types, by their full names. The answers that
are kept are those that the module gives, if types of one full name agree on them, and a module that grew gives
the same ones.

* `CapabilityCache.Knows`, `ask_eq`: kept answers are right.
* `followedEvent?_eq`: the event that is followed does not depend on the answers that are kept.
-/

namespace SetterLoom
set_option autoImplicit false

namespace Module

/-- Types of one full name agree on their capabilities. -/
def Coherent (m : Module) : Prop :=
  ∀ t u d e, m.type? t = some d → m.type? u = some e → d.fullName = e.fullName →
    ∀ c, m.implements c t = m.implements c u

theorem mem_line_self {m : Module} {t : TypeId} {d : TypeDef} (hd : m.type? t = some d) :
    (t, d) ∈ m.line t := by
  refine @mem_line m t 1 (t, d) ?_
  rw [lineUpTo_eq_cons 0 hd]
  exact List.mem_cons_self

theorem implements_eq_false {m : Module} {c : Capability} {t : TypeId}
    (h : ∀ e ∈ m.line t, m.declares c e.2 = true → e ∈ ([] : List (TypeId × TypeDef))) :
    m.implements c t = false :=
  List.any_eq_false.mpr fun e he hmarked => absurd (h e he hmarked) List.not_mem_nil

end Module

namespace CapabilityCache

variable {m : Module} {cache : CapabilityCache} {c : Capability} {t : TypeId}

/-- The answers that are kept are those of the module. -/
def Knows (cache : CapabilityCache) (m : Module) : Prop :=
  ∀ c t d answer, m.type? t = some d → (cache.table c).answer? d.fullName = some answer →
    answer = m.implements c t

theorem knows_empty (m : Module) : ({} : CapabilityCache).Knows m := by
  intro c t d answer _ h
  cases c <;> cases h

theorem Knows.store (hcoherent : m.Coherent) (h : cache.Knows m) {d : TypeDef} {answer : Bool}
    (hd : m.type? t = some d) (hanswer : answer = m.implements c t) :
    (cache.store c d.fullName answer).Knows m := by
  intro c' u e answer' he hkept
  rw [table_store] at hkept
  split at hkept
  · rename_i heq
    subst heq
    rw [AnswerTable.answer?_store] at hkept
    split at hkept
    · rename_i hname
      rw [← Option.some.inj hkept, hanswer]
      exact hcoherent t u d e hd he hname.symm c'
    · exact h c' u e answer' he hkept
  · exact h c' u e answer' he hkept

/-- A walk along the line comes to all types with the marker. -/
def Covers (m : Module) (c : Capability) (bound : Nat) (t : TypeId) : Prop :=
  ∀ e ∈ m.line t, m.declares c e.2 = true → e ∈ m.lineUpTo bound t

/-- If a type does not list the marker itself, it is behind the type, if anywhere. -/
theorem Covers.base {bound : Nat} {d : TypeDef} (h : Covers m c (bound + 1) t) (hd : m.type? t = some d)
    (hdeclares : m.declares c d ≠ true) :
    match d.base with
    | none => m.implements c t = false
    | some b => Covers m c bound b ∧ m.implements c t = m.implements c b := by
  have hrest : ∀ e ∈ m.line t, m.declares c e.2 = true → e ∈ d.base.elim [] (m.lineUpTo bound) := by
    intro e he hmarked
    have hmem := h e he hmarked
    rw [Module.lineUpTo_eq_cons bound hd] at hmem
    rcases List.mem_cons.mp hmem with rfl | hmem
    · exact absurd hmarked hdeclares
    · exact hmem
  cases hb : d.base with
  | none =>
    rw [hb] at hrest
    exact Module.implements_eq_false hrest
  | some b =>
    rw [hb] at hrest
    have hline : ∀ e ∈ m.line b, e ∈ m.line t := fun e he => by
      refine @Module.mem_line m t (m.types.size + 1) e ?_
      rw [Module.lineUpTo_eq_cons _ hd, hb, Option.elim_some]
      exact List.mem_cons_of_mem _ he
    refine ⟨fun e he hmarked => hrest e (hline e he) hmarked, Bool.eq_iff_iff.mpr ⟨fun ht => ?_, fun ht => ?_⟩⟩
    · obtain ⟨e, he, hmarked⟩ := List.any_eq_true.mp ht
      exact List.any_eq_true.mpr ⟨e, Module.mem_line (hrest e he hmarked), hmarked⟩
    · obtain ⟨e, he, hmarked⟩ := List.any_eq_true.mp ht
      exact List.any_eq_true.mpr ⟨e, hline e he, hmarked⟩

/-- The answer for a walk that comes to all types with the marker is the module's. -/
theorem askLine_answer {bound : Nat} (h : cache.Knows m) (hall : Covers m c bound t) :
    (askLine m c (m.lineUpTo bound t) cache).1 = m.implements c t := by
  induction bound generalizing t with
  | zero => exact (Module.implements_eq_false hall).symm
  | succ bound ih =>
    cases hd : m.type? t with
    | none =>
      rw [Covers, Module.lineUpTo_of_none (bound + 1) hd] at hall
      rw [Module.lineUpTo_of_none (bound + 1) hd]
      exact (Module.implements_eq_false hall).symm
    | some d =>
      rw [Module.lineUpTo_eq_cons bound hd, askLine]
      cases hkept : (cache.table c).answer? d.fullName with
      | some answer => exact h c t d answer hd hkept
      | none =>
        dsimp only
        -- a type that declares the capability answers for itself;
        -- another one answers as its base type does
        by_cases hdeclares : m.declares c d = true
        · rw [if_pos hdeclares]
          exact (List.any_eq_true.mpr ⟨(t, d), Module.mem_line_self hd, hdeclares⟩).symm
        · rw [if_neg hdeclares]
          have hbase := hall.base hd hdeclares
          cases hb : d.base with
          | none =>
            rw [hb] at hbase
            exact hbase.symm
          | some b =>
            rw [hb] at hbase
            rw [hbase.2]
            exact ih hbase.1

/-- A walk that comes to all types with the marker keeps only right answers. -/
theorem askLine_knows (hcoherent : m.Coherent) {bound : Nat} (h : cache.Knows m) (hall : Covers m c bound t) :
    (askLine m c (m.lineUpTo bound t) cache).2.Knows m := by
  induction bound generalizing t with
  | zero => exact h
  | succ bound ih =>
    cases hd : m.type? t with
    | none =>
      rw [Module.lineUpTo_of_none (bound + 1) hd]
      exact h
    | some d =>
      have hanswer := askLine_answer h hall
      rw [Module.lineUpTo_eq_cons bound hd, askLine] at hanswer ⊢
      cases hkept : (cache.table c).answer? d.fullName with
      | some answer => exact h
      | none =>
        rw [hkept] at hanswer
        dsimp only at hanswer ⊢
        by_cases hdeclares : m.declares c d = true
        · rw [if_pos hdeclares] at hanswer ⊢
          exact h.store hcoherent hd hanswer
        · rw [if_neg hdeclares] at hanswer ⊢
          refine Knows.store hcoherent ?_ hd hanswer
          have hbase := hall.base hd hdeclares
          cases hb : d.base with
          | none => exact h
          | some b =>
            rw [hb] at hbase
            exact ih hbase.1

theorem ask_answer (h : cache.Knows m) (c : Capability) (t : TypeId) :
    (cache.ask m c t).1 = m.implements c t :=
  askLine_answer h fun _ he _ => he

theorem ask_eq (hcoherent : m.Coherent) (h : cache.Knows m) (c : Capability) (t : TypeId) :
    (cache.ask m c t).1 = m.implements c t ∧ (cache.ask m c t).2.Knows m :=
  ⟨ask_answer h c t, askLine_knows hcoherent h fun _ he _ => he⟩

end CapabilityCache

namespace Module

variable {m m' : Module}

theorem Grown.fullName (h : m.Grown m') {t : TypeId} {d' : TypeDef} (hd' : m'.type? t = some d') :
    ∃ d, m.type? t = some d ∧ d'.fullName = d.fullName := by
  obtain ⟨d, hd, hshape⟩ := h.type? hd'
  have hname : d'.shape.fullName = d.shape.fullName := by rw [hshape]
  exact ⟨d, hd, hname⟩

theorem Grown.coherent (h : m.Grown m') (hcoherent : m.Coherent) : m'.Coherent := by
  intro t u d' e' hd' he' hname c
  obtain ⟨d, hd, hdname⟩ := h.fullName hd'
  obtain ⟨e, he, hename⟩ := h.fullName he'
  rw [h.implements, h.implements]
  exact hcoherent t u d e hd he (hdname.symm.trans (hname.trans hename)) c

theorem Grown.knows_iff (h : m.Grown m') (cache : CapabilityCache) : cache.Knows m' ↔ cache.Knows m := by
  constructor
  · intro hknows c t d answer hd hkept
    have ht := h.types t
    rw [hd, Option.map_some] at ht
    obtain ⟨d', hd', -⟩ := Option.map_eq_some_iff.mp ht
    obtain ⟨d₀, hd₀, hname⟩ := h.fullName hd'
    obtain rfl := Option.some.inj (hd.symm.trans hd₀)
    rw [← h.implements]
    exact hknows c t d' answer hd' (hname ▸ hkept)
  · intro hknows c t d' answer hd' hkept
    obtain ⟨d, hd, hname⟩ := h.fullName hd'
    rw [h.implements]
    exact hknows c t d answer hd (hname ▸ hkept)

/-- The event that is followed for a property of a type. -/
def followed? (m : Module) (options : Options) (type : TypeId) (p : Property) : Option Event :=
  if options.childChanges && m.implements .childChanges type && (m.type? p.type).isSome
      && m.implements .observable p.type then
    m.publicEvent? p.type handlerTypeName
  else none

end Module

theorem followedEvent?_eq {m : Module} {cache : CapabilityCache} (hcoherent : m.Coherent)
    (h : cache.Knows m) (options : Options) (type : TypeId) (p : Property) :
    (followedEvent? m options type p cache).1 = m.followed? options type p
      ∧ (followedEvent? m options type p cache).2.Knows m := by
  have hholds := CapabilityCache.ask_eq hcoherent h .childChanges type
  unfold followedEvent? Module.followed?
  cases hask : cache.ask m .childChanges type with
  | mk holds cache₁ =>
    rw [hask] at hholds
    obtain ⟨hholds, h₁⟩ := hholds
    have hannounces := CapabilityCache.ask_eq hcoherent h₁ .observable p.type
    cases hask' : cache₁.ask m .observable p.type with
    | mk announces cache₂ =>
      rw [hask'] at hannounces
      obtain ⟨hannounces, h₂⟩ := hannounces
      rw [← hholds, ← hannounces]
      cases options.childChanges with
      | false => exact ⟨rfl, h⟩
      | true =>
        cases holds with
        | false => exact ⟨rfl, h₁⟩
        | true =>
          cases m.type? p.type with
          | none => exact ⟨rfl, h₁⟩
          | some d =>
            simp only [Bool.not_true, Bool.false_eq_true, if_false, Option.isNone_some, hask']
            cases announces <;> exact ⟨rfl, h₂⟩

end SetterLoom
