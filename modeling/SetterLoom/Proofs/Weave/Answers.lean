import SetterLoom.Proofs.Weave.Kinds
import SetterLoom.Proofs.Weave.Knows

/-!
# Kept answers are right

A question about a type is answered by a walk along its base types, up to the first one whose answer is
kept already or that lists the marker, and the answer is kept for all that the walk came to. Answers are
kept by full name and for one capability at a time. If types of one full name have the same capabilities,
it cannot be seen from the answers that any are kept: however many questions of both kinds were asked
before, in whatever order, the answer is the one that the base types give.

* `Module.implements_iff`: the answer without any that are kept.
* `answer?_askLine`: what is kept behind a question.
* `answers_right`: any number of questions.
-/

namespace SetterLoom
set_option autoImplicit false

/-! ## Capabilities of types -/

namespace Module

variable {m : Module} {t u : TypeId} {d : TypeDef} {c : Capability}

/-- A type is, or derives from, another one. -/
inductive Derives (m : Module) : TypeId → TypeId → Prop
  | self (t : TypeId) : m.Derives t t
  | base {t b u : TypeId} {d : TypeDef} (hd : m.type? t = some d) (hb : d.base = some b)
      (h : m.Derives b u) : m.Derives t u

/-- A type has a capability if it lists an interface with the simple name of the marker, or derives from a
type that does. -/
def Has (m : Module) (c : Capability) (t : TypeId) : Prop :=
  ∃ u d, m.Derives t u ∧ m.type? u = some d
    ∧ ∃ i ∈ d.interfaces, ∃ e, m.type? i = some e ∧ e.name = c.marker

theorem derives_of_mem_lineUpTo {bound : Nat} {e : TypeId × TypeDef} (h : e ∈ m.lineUpTo bound t) :
    m.Derives t e.1 := by
  induction bound generalizing t with
  | zero => cases h
  | succ bound ih =>
    cases hd : m.type? t with
    | none =>
      rw [lineUpTo_of_none _ hd] at h
      cases h
    | some d =>
      rw [lineUpTo_eq_cons bound hd] at h
      rcases List.mem_cons.mp h with rfl | h
      · exact .self t
      · cases hb : d.base with
        | none => simp [hb] at h
        | some b =>
          rw [hb] at h
          exact .base hd hb (ih h)

/-- The line holds all that a type derives from, as far as it is there. -/
theorem mem_line_of_derives (h : m.Derives t u) (hu : m.type? u = some d) : (u, d) ∈ m.line t := by
  induction h with
  | self t => exact mem_line_self hu
  | @base t b u e he hb _ ih =>
    refine @mem_line m t (m.types.size + 1) _ ?_
    rw [lineUpTo_eq_cons _ he, hb]
    exact List.mem_cons_of_mem _ (ih hu)

theorem declares_iff : m.declares c d = true
    ↔ ∃ i ∈ d.interfaces, ∃ e, m.type? i = some e ∧ e.name = c.marker := by
  simp [declares, Option.any_eq_true]

theorem implements_iff : m.implements c t = true ↔ m.Has c t := by
  unfold implements
  rw [List.any_eq_true]
  constructor
  · rintro ⟨e, he, hdeclares⟩
    exact ⟨e.1, e.2, derives_of_mem_lineUpTo he, type?_of_mem_line he, declares_iff.mp hdeclares⟩
  · rintro ⟨u, d, hderives, hd, hmarked⟩
    exact ⟨(u, d), mem_line_of_derives hderives hd, declares_iff.mpr hmarked⟩

end Module

namespace CapabilityCache

variable {m : Module} {cache : CapabilityCache} {c c' : Capability} {t : TypeId} {n : String}
  {line : List (TypeId × TypeDef)}

/-! ## One question -/

/-- A walk ends at a type whose answer is kept or that lists the marker. -/
def endsAt (cache : CapabilityCache) (m : Module) (c : Capability) (e : TypeId × TypeDef) : Bool :=
  ((cache.table c).answer? e.2.fullName).isSome || m.declares c e.2

/-- The types that a walk along a line comes to. -/
def visited (cache : CapabilityCache) (m : Module) (c : Capability) (line : List (TypeId × TypeDef)) :
    List (TypeId × TypeDef) :=
  line.take (line.findIdx (cache.endsAt m c) + 1)

theorem visited_cons (cache : CapabilityCache) (m : Module) (c : Capability) (e : TypeId × TypeDef)
    (rest : List (TypeId × TypeDef)) :
    cache.visited m c (e :: rest) = e :: if cache.endsAt m c e then [] else cache.visited m c rest := by
  unfold visited
  rw [List.findIdx_cons, List.take_succ_cons]
  cases cache.endsAt m c e <;> rfl

theorem isSome_answer?_store (cache : CapabilityCache) (c : Capability) (name : String) (answer : Bool) :
    (((cache.store c name answer).table c).answer? n).isSome
      ↔ ((cache.table c).answer? n).isSome ∨ name = n := by
  rw [table_store, if_pos rfl, AnswerTable.answer?_store]
  by_cases h : n = name
  · simp [h]
  · simp [h, Ne.symm h]

/-- Behind a question there are answers for the names there were answers for, and for the names of the types
that the walk came to. -/
theorem answer?_askLine (m : Module) (c : Capability) (line : List (TypeId × TypeDef))
    (cache : CapabilityCache) (n : String) :
    (((askLine m c line cache).2.table c).answer? n).isSome
      ↔ ((cache.table c).answer? n).isSome ∨ ∃ e ∈ cache.visited m c line, e.2.fullName = n := by
  induction line with
  | nil => simp [askLine, visited]
  | cons e rest ih =>
    obtain ⟨t, d⟩ := e
    rw [visited_cons]
    -- the walk ends at a name with an answer or at a declaration, and the
    -- answer is kept for all names in front
    cases hkept : (cache.table c).answer? d.fullName with
    | some answer =>
      have hends : cache.endsAt m c (t, d) = true := by simp [endsAt, hkept]
      rw [askLine_known hkept, if_pos hends]
      refine ⟨Or.inl, ?_⟩
      rintro (h | ⟨e, he, rfl⟩)
      · exact h
      · obtain rfl := List.mem_singleton.mp he
        rw [hkept]
        rfl
    | none =>
      rw [askLine, hkept]
      dsimp only
      by_cases hdeclares : m.declares c d = true
      · have hends : cache.endsAt m c (t, d) = true := by simp [endsAt, hdeclares]
        rw [if_pos hdeclares, if_pos hends, isSome_answer?_store]
        simp
      · have hends : cache.endsAt m c (t, d) = false := by simp [endsAt, hkept, hdeclares]
        rw [if_neg hdeclares, hends, isSome_answer?_store, ih, or_assoc, or_comm (b := d.fullName = n)]
        simp

theorem table_askLine_of_ne (h : c' ≠ c) (line : List (TypeId × TypeDef)) (cache : CapabilityCache) :
    (askLine m c line cache).2.table c' = cache.table c' := by
  induction line generalizing cache with
  | nil => rfl
  | cons e rest ih =>
    rw [askLine]
    split
    · rfl
    · split
      · rw [table_store, if_neg h]
      · dsimp only
        rw [table_store, if_neg h, ih]

/-! ## Any number of questions -/

/-- Ask one question after the other. -/
def askAll (m : Module) : List (Capability × TypeId) → CapabilityCache → List Bool × CapabilityCache
  | [], cache => ([], cache)
  | (c, t) :: rest, cache =>
    let (answer, cache) := cache.ask m c t
    let (answers, cache) := askAll m rest cache
    (answer :: answers, cache)

/-- Answers are kept for types that are there. -/
def Tells (cache : CapabilityCache) (m : Module) : Prop :=
  ∀ c n, ((cache.table c).answer? n).isSome → ∃ t d, m.type? t = some d ∧ d.fullName = n

theorem tells_empty (m : Module) : ({} : CapabilityCache).Tells m := by
  intro c n h
  cases c <;> cases h

theorem Tells.ask (h : cache.Tells m) (c : Capability) (t : TypeId) : (cache.ask m c t).2.Tells m := by
  intro c' n hkept
  by_cases hc : c' = c
  · subst hc
    rcases (answer?_askLine m c' (m.line t) cache n).mp hkept with hkept | ⟨e, he, rfl⟩
    · exact h c' n hkept
    · exact ⟨e.1, e.2, Module.type?_of_mem_line (List.mem_of_mem_take he), rfl⟩
  · rw [show (cache.ask m c t).2.table c' = cache.table c' from table_askLine_of_ne hc _ _] at hkept
    exact h c' n hkept

/-- Questions asked to right answers get the answers that the module gives, and keep right ones. -/
theorem askAll_eq (hcoherent : m.Coherent) (questions : List (Capability × TypeId)) (hknows : cache.Knows m)
    (htells : cache.Tells m) :
    (askAll m questions cache).1 = questions.map (fun q => m.implements q.1 q.2)
      ∧ (askAll m questions cache).2.Knows m ∧ (askAll m questions cache).2.Tells m := by
  induction questions generalizing cache with
  | nil => exact ⟨rfl, hknows, htells⟩
  | cons q rest ih =>
    obtain ⟨c, t⟩ := q
    obtain ⟨hanswer, hknows'⟩ := ask_eq hcoherent hknows c t
    obtain ⟨hanswers, hkept⟩ := ih hknows' (htells.ask c t)
    refine ⟨?_, hkept⟩
    rw [askAll, List.map_cons, ← hanswers, ← hanswer]

/-- Any number of questions, from a start without answers: each is answered as the base types say, whatever
was asked before. What is kept then is right for all types of the name and there is one; and the next
question adds answers for the types that its walk comes to, and for its own capability only. -/
theorem answers_right (hcoherent : m.Coherent) (questions : List (Capability × TypeId)) :
    (List.Forall₂ (fun q answer => answer = true ↔ m.Has q.1 q.2) questions (askAll m questions {}).1)
      ∧ (∀ c n answer, ((askAll m questions {}).2.table c).answer? n = some answer →
          (∃ t d, m.type? t = some d ∧ d.fullName = n)
            ∧ ∀ t d, m.type? t = some d → d.fullName = n → (answer = true ↔ m.Has c t))
      ∧ ∀ c t, (∀ n, ((((askAll m questions {}).2.ask m c t).2.table c).answer? n).isSome
            ↔ (((askAll m questions {}).2.table c).answer? n).isSome
              ∨ ∃ e ∈ (askAll m questions {}).2.visited m c (m.line t), e.2.fullName = n)
          ∧ ∀ c', c' ≠ c →
              ((askAll m questions {}).2.ask m c t).2.table c' = (askAll m questions {}).2.table c' := by
  obtain ⟨hanswers, hknows, htells⟩ := askAll_eq hcoherent questions (knows_empty m) (tells_empty m)
  refine ⟨?_, fun c n answer hkept => ⟨?_, ?_⟩, fun c t => ⟨fun n => ?_, fun c' hc => ?_⟩⟩
  · rw [hanswers, List.forall₂_map_right_iff]
    exact List.forall₂_same.mpr fun q _ => Module.implements_iff
  · exact htells c n (by rw [hkept]; rfl)
  · rintro t d hd rfl
    rw [hknows c t d answer hd hkept]
    exact Module.implements_iff
  · exact answer?_askLine m c (m.line t) _ n
  · exact table_askLine_of_ne hc _ _

end CapabilityCache

/-! ## A type that shares its name -/

namespace Leaves

def named (token : UInt32) (name : String) (base : Option TypeId) (interfaces : List TypeId) : Option TypeDef :=
  some { token := ⟨token⟩, space := "S", name, flavor := .classType, external := false, base, interfaces }

/-- A marker of the module's own, a type that lists it, and two leaves of one name that derive from that. -/
def module : Module where
  name := "Leaves"
  types := #[named 1 "INotifyPropertyChanged" none [], named 2 "Root" none [⟨0⟩], named 3 "Leaf" (some ⟨1⟩) [],
    named 4 "Leaf" (some ⟨1⟩) [], named 5 "Bare" none []]

def questions : List (Capability × TypeId) :=
  [(.observable, ⟨4⟩), (.observable, ⟨3⟩), (.childChanges, ⟨2⟩), (.observable, ⟨2⟩)]

theorem coherent : module.Coherent := by
  intro t u d e hd he hname c
  have hall : ∀ c ∈ [Capability.observable, .childChanges], ∀ i j : Fin 5, ∀ d ∈ module.type? ⟨i⟩,
      ∀ e ∈ module.type? ⟨j⟩, d.fullName = e.fullName → module.implements c ⟨i⟩ = module.implements c ⟨j⟩ := by
    decide +kernel
  have hsize : module.types.size = 5 := rfl
  have ht : t.index < 5 := hsize ▸ Module.index_lt_of_type? hd
  have hu : u.index < 5 := hsize ▸ Module.index_lt_of_type? he
  exact hall c (by cases c <;> simp) ⟨t.index, ht⟩ ⟨u.index, hu⟩ d hd e he hname

end Leaves

open CapabilityCache Leaves in
/-- The answer for the first leaf is kept for its base type, and is given for the other leaf. -/
theorem CapabilityCache.answers_right_leaves :
    module.Coherent
      ∧ (askAll module questions {}).1 = [false, true, false, true]
      ∧ module.Has .observable ⟨3⟩ ∧ ¬ module.Has .childChanges ⟨2⟩
      ∧ ((askAll module questions {}).2.table .observable).answer? "S.Root" = some true := by
  have hresult : (askAll module questions {}).1 = [false, true, false, true] := by decide +kernel
  have h := (answers_right coherent questions).1
  rw [hresult] at h
  have hrest := (List.forall₂_cons.mp h).2
  obtain ⟨hannounces, hrest⟩ := List.forall₂_cons.mp hrest
  have hholds := (List.forall₂_cons.mp hrest).1
  exact ⟨coherent, hresult, hannounces.mp rfl, fun hhas => Bool.noConfusion (hholds.mpr hhas), by decide +kernel⟩

end SetterLoom
