import SetterLoom.Proofs.Module.Declared
import SetterLoom.Proofs.Weave.Answers
import Mathlib.Logic.Relation

/-!
# Inherited interfaces

A declared type lists the interfaces it is given and all that these inherit. They are found by a search
with a stack: what was popped is skipped if an interface of its full name is listed, and is followed by the
interfaces that it lists itself otherwise. The search ends on graphs with cycles too, for each interface that
is followed takes its full name, and the entries of all interfaces with new names become fewer.

* `Walk`: the search without a bound, and `walk_allInterfaces`: the bounded one does not stop early.
* `Walk.sound`, `Walk.complete`, `Walk.nodup`: what the search finds.
* `declared_inherits`: the interfaces and the capabilities of a declared type.
-/

namespace SetterLoom
set_option autoImplicit false

namespace Module

variable {m : Module} {given pending found : List TypeId} {listed : List String} {i j t : TypeId}
  {c : Capability}

/-! ## Reachable interfaces -/

/-- A type lists an interface. -/
def Lists (m : Module) (t i : TypeId) : Prop := ∃ d, m.type? t = some d ∧ i ∈ d.interfaces

/-- An interface is given, or inherited by one that is. -/
def Inherited (m : Module) (given : List TypeId) (i : TypeId) : Prop :=
  ∃ g ∈ given, Relation.ReflTransGen m.Lists g i

/-- A marker of the capability is given or inherited. -/
def InheritsMarker (m : Module) (given : List TypeId) (c : Capability) : Prop :=
  ∃ i d, m.Inherited given i ∧ m.type? i = some d ∧ d.name = c.marker

/-- All interfaces that are given or inherited are there. -/
def Live (m : Module) (given : List TypeId) : Prop := ∀ i, m.Inherited given i → ∃ d, m.type? i = some d

/-- The full names of the given and inherited interfaces tell them apart. -/
def Named (m : Module) (given : List TypeId) : Prop :=
  ∀ i j d e, m.Inherited given i → m.Inherited given j → m.type? i = some d → m.type? j = some e →
    d.fullName = e.fullName → i = j

theorem inherited_of_mem (h : i ∈ given) : m.Inherited given i := ⟨i, h, .refl⟩

theorem Inherited.tail (h : m.Inherited given i) (hij : m.Lists i j) : m.Inherited given j := by
  obtain ⟨g, hg, hreach⟩ := h
  exact ⟨g, hg, hreach.tail hij⟩

theorem Inherited.trans (h : m.Inherited found i) (hfound : ∀ j ∈ found, m.Inherited given j) :
    m.Inherited given i := by
  obtain ⟨g, hg, hreach⟩ := h
  obtain ⟨g', hg', hreach'⟩ := hfound g hg
  exact ⟨g', hg', hreach'.trans hreach⟩

theorem Inherited.mono (h : m.Inherited given i) (hsub : given ⊆ pending) : m.Inherited pending i := by
  obtain ⟨g, hg, hreach⟩ := h
  exact ⟨g, hsub hg, hreach⟩

theorem inherited_of_mem_step {d : TypeDef} (hi : m.type? i = some d)
    (hj : j ∈ d.interfaces.reverse ++ pending) : m.Inherited (i :: pending) j := by
  rcases List.mem_append.mp hj with hj | hj
  · exact (inherited_of_mem List.mem_cons_self).tail ⟨d, hi, List.mem_reverse.mp hj⟩
  · exact inherited_of_mem (List.mem_cons_of_mem _ hj)

/-- A list with the given interfaces that has what each of them lists has all that is inherited. -/
theorem inherited_subset (hgiven : given ⊆ found) (hlists : ∀ i ∈ found, ∀ j, m.Lists i j → j ∈ found)
    (hi : m.Inherited given i) : i ∈ found := by
  obtain ⟨g, hg, hreach⟩ := hi
  induction hreach with
  | refl => exact hgiven hg
  | tail _ hstep ih => exact hlists _ ih _ hstep

/-! ## The search -/

/-- The search from a stack of pending interfaces, when interfaces of some full names are listed: what it
finds, in that order. -/
inductive Walk (m : Module) : List TypeId → List String → List TypeId → Prop
  | done (listed : List String) : Walk m [] listed []
  | gone {i : TypeId} {pending : List TypeId} {listed : List String} {found : List TypeId}
      (hi : m.type? i = none) (h : Walk m pending listed found) : Walk m (i :: pending) listed found
  | known {i : TypeId} {d : TypeDef} {pending : List TypeId} {listed : List String} {found : List TypeId}
      (hi : m.type? i = some d) (hlisted : d.fullName ∈ listed) (h : Walk m pending listed found) :
      Walk m (i :: pending) listed found
  | new {i : TypeId} {d : TypeDef} {pending : List TypeId} {listed : List String} {found : List TypeId}
      (hi : m.type? i = some d) (hlisted : d.fullName ∉ listed)
      (h : Walk m (d.interfaces.reverse ++ pending) (d.fullName :: listed) found) :
      Walk m (i :: pending) listed (i :: found)

/-- The interfaces listed by a type whose full name is not listed. -/
def unlisted (listed : List String) (t : Option TypeDef) : List TypeId :=
  t.elim [] fun d => if d.fullName ∈ listed then [] else d.interfaces

/-- The number of interfaces listed by the types whose full names are not listed. -/
def unlistedEntries (m : Module) (listed : List String) : Nat :=
  (m.types.toList.flatMap (unlisted listed)).length

theorem unlistedEntries_nil (m : Module) : m.unlistedEntries [] = m.interfaceEntries := by
  simp [unlistedEntries, interfaceEntries, unlisted]

theorem length_unlisted_cons (n : String) (listed : List String) (t : Option TypeDef) :
    (unlisted (n :: listed) t).length ≤ (unlisted listed t).length := by
  cases t with
  | none => exact Nat.le_refl _
  | some d =>
    by_cases hn : d.fullName = n
    · simp [unlisted, hn]
    · simp [unlisted, hn]

theorem unlistedEntries_cons {d : TypeDef} (hi : m.type? i = some d) (hlisted : d.fullName ∉ listed) :
    m.unlistedEntries (d.fullName :: listed) + d.interfaces.length ≤ m.unlistedEntries listed := by
  have hmem : some d ∈ m.types.toList :=
    Array.mem_toList_iff.mpr (Array.mem_of_getElem? (Option.join_eq_some_iff.mp hi))
  have hfewer : ∀ types : List (Option TypeDef),
      (types.flatMap (unlisted (d.fullName :: listed))).length ≤ (types.flatMap (unlisted listed)).length := by
    intro types
    induction types with
    | nil => exact Nat.le_refl _
    | cons t rest ih =>
      simp only [List.flatMap_cons, List.length_append]
      exact Nat.add_le_add (length_unlisted_cons _ _ t) ih
  unfold unlistedEntries
  obtain ⟨before, behind, htypes⟩ := List.append_of_mem hmem
  have hgone : unlisted (d.fullName :: listed) (some d) = [] := by simp [unlisted]
  have hthere : unlisted listed (some d) = d.interfaces := by simp [unlisted, hlisted]
  -- the type itself loses its entries, and the types on either side have no more than before
  have hbefore := hfewer before
  have hbehind := hfewer behind
  simp only [htypes, List.flatMap_append, List.flatMap_cons, List.length_append, hgone, hthere,
    List.length_nil]
  omega

/-- With as many turns as there are pending interfaces and entries of new names, the search comes to its
end. -/
theorem walk_interfacesFrom {bound : Nat} (h : pending.length + m.unlistedEntries listed < bound) :
    m.Walk pending listed (m.interfacesFrom bound pending listed) := by
  -- by induction on the turns: each one takes an interface from those pending, or trades
  -- the entries of a new name for as many pending ones
  induction bound generalizing pending listed with
  | zero => omega
  | succ bound ih =>
    cases pending with
    | nil => exact .done listed
    | cons i pending =>
      rw [List.length_cons] at h
      rw [interfacesFrom]
      cases hi : m.type? i with
      | none => exact .gone hi (ih (by omega))
      | some d =>
        dsimp only
        by_cases hlisted : d.fullName ∈ listed
        · rw [if_pos (List.contains_iff_mem.mpr hlisted)]
          exact .known hi hlisted (ih (by omega))
        · rw [if_neg fun hc => hlisted (List.contains_iff_mem.mp hc)]
          have hfewer := unlistedEntries_cons hi hlisted
          refine .new hi hlisted (ih ?_)
          rw [List.length_append, List.length_reverse]
          omega

theorem walk_allInterfaces (m : Module) (given : List TypeId) : m.Walk given [] (m.allInterfaces given) := by
  refine walk_interfacesFrom ?_
  rw [unlistedEntries_nil]
  omega

namespace Walk

theorem unique {found' : List TypeId} (h : m.Walk pending listed found) (h' : m.Walk pending listed found') :
    found = found' := by
  -- the two searches go the same way at every turn, so the other cases
  -- contradict the name or the type that is found
  induction h generalizing found' with
  | done => cases h'; rfl
  | gone hi _ ih =>
    cases h' with
    | gone _ h' => exact ih h'
    | known hi' | new hi' => simp [hi] at hi'
  | known hi hlisted _ ih =>
    cases h' with
    | gone hi' => simp [hi] at hi'
    | known _ _ h' => exact ih h'
    | new hi' hlisted' =>
      obtain rfl := Option.some.inj (hi.symm.trans hi')
      exact absurd hlisted hlisted'
  | new hi hlisted _ ih =>
    cases h' with
    | gone hi' => simp [hi] at hi'
    | known hi' hlisted' =>
      obtain rfl := Option.some.inj (hi.symm.trans hi')
      exact absurd hlisted' hlisted
    | new hi' _ h' =>
      obtain rfl := Option.some.inj (hi.symm.trans hi')
      rw [ih h']

/-- What is found is there and inherited, and has a new name. -/
theorem sound (h : m.Walk pending listed found) (hi : i ∈ found) :
    m.Inherited pending i ∧ ∃ d, m.type? i = some d ∧ d.fullName ∉ listed := by
  induction h with
  | done => cases hi
  | gone _ _ ih =>
    obtain ⟨hinherited, hd⟩ := ih hi
    exact ⟨hinherited.mono (List.subset_cons_self _ _), hd⟩
  | known _ _ _ ih =>
    obtain ⟨hinherited, hd⟩ := ih hi
    exact ⟨hinherited.mono (List.subset_cons_self _ _), hd⟩
  | @new k d pending listed found hk hlisted _ ih =>
    rcases List.mem_cons.mp hi with rfl | hi
    · exact ⟨inherited_of_mem List.mem_cons_self, d, hk, hlisted⟩
    · obtain ⟨hinherited, e, he, hnew⟩ := ih hi
      exact ⟨hinherited.trans fun j hj => inherited_of_mem_step hk hj, e, he,
        fun hmem => hnew (List.mem_cons_of_mem _ hmem)⟩

theorem nodup (h : m.Walk pending listed found) : found.Nodup := by
  induction h with
  | done => exact List.nodup_nil
  | gone _ _ ih => exact ih
  | known _ _ _ ih => exact ih
  | new hi _ h ih =>
    refine List.nodup_cons.mpr ⟨fun hmem => ?_, ih⟩
    obtain ⟨-, e, he, hnew⟩ := h.sound hmem
    obtain rfl := Option.some.inj (hi.symm.trans he)
    exact hnew List.mem_cons_self

/-- The name is listed, or an interface of the name is found. -/
def Covered (m : Module) (listed : List String) (found : List TypeId) (n : String) : Prop :=
  n ∈ listed ∨ ∃ i ∈ found, ∃ d, m.type? i = some d ∧ d.fullName = n

/-- Whatever is pending, and whatever a found interface lists, is covered by its name. -/
theorem covered (h : m.Walk pending listed found) (hj : j ∈ pending ∨ ∃ i ∈ found, m.Lists i j)
    {e : TypeDef} (he : m.type? j = some e) : Covered m listed found e.fullName := by
  induction h with
  | done =>
    rcases hj with hj | ⟨i, hi, -⟩
    · cases hj
    · cases hi
  | gone hi _ ih =>
    refine ih (hj.imp_left fun hj => ?_)
    rcases List.mem_cons.mp hj with rfl | hj
    · simp [hi] at he
    · exact hj
  | known hi hlisted _ ih =>
    rcases hj with hj | hj
    · rcases List.mem_cons.mp hj with rfl | hj
      · obtain rfl := Option.some.inj (hi.symm.trans he)
        exact .inl hlisted
      · exact ih (.inl hj)
    · exact ih (.inr hj)
  | @new k d pending listed found hk hlisted _ ih =>
    -- what is covered when the name is listed is covered by the interface that has just been found
    have hrest : Covered m (d.fullName :: listed) found e.fullName → Covered m listed (k :: found) e.fullName := by
      rintro (hmem | ⟨i, hi, hname⟩)
      · rcases List.mem_cons.mp hmem with hname | hmem
        · exact .inr ⟨k, List.mem_cons_self, d, hk, hname.symm⟩
        · exact .inl hmem
      · exact .inr ⟨i, List.mem_cons_of_mem _ hi, hname⟩
    rcases hj with hj | ⟨i, hi, hij⟩
    · rcases List.mem_cons.mp hj with rfl | hj
      · obtain rfl := Option.some.inj (hk.symm.trans he)
        exact .inr ⟨j, List.mem_cons_self, d, hk, rfl⟩
      · exact hrest (ih (.inl (List.mem_append_right _ hj)))
    · rcases List.mem_cons.mp hi with rfl | hi
      · obtain ⟨d', hd', hmem⟩ := hij
        obtain rfl := Option.some.inj (hk.symm.trans hd')
        exact hrest (ih (.inl (List.mem_append_left _ (List.mem_reverse.mpr hmem))))
      · exact hrest (ih (.inr ⟨i, hi, hij⟩))

/-- A search from nothing finds all that is inherited, if names tell interfaces apart. -/
theorem complete (h : m.Walk given [] found) (hlive : m.Live given) (hnamed : m.Named given)
    (hi : m.Inherited given i) : i ∈ found := by
  have hcovered : ∀ j, m.Inherited given j → (j ∈ given ∨ ∃ k ∈ found, m.Lists k j) → j ∈ found := by
    intro j hj hnext
    obtain ⟨e, he⟩ := hlive j hj
    rcases h.covered hnext he with hmem | ⟨k, hk, d, hd, hname⟩
    · cases hmem
    · exact hnamed k j d e (h.sound hk).1 hj hd he hname ▸ hk
  obtain ⟨g, hg, hreach⟩ := hi
  -- along the chain of lists from a given interface
  induction hreach with
  | refl => exact hcovered g (inherited_of_mem hg) (.inl hg)
  | tail hreach hstep ih => exact hcovered _ ⟨g, hg, hreach.tail hstep⟩ (.inr ⟨_, ih, hstep⟩)

/-- A search goes the same way in a module that has the same types where it comes to. -/
theorem congr {n : Module} (h : m.Walk pending listed found)
    (hsame : ∀ i, m.Inherited pending i → n.type? i = m.type? i) : n.Walk pending listed found := by
  induction h with
  | done => exact .done _
  | gone hi _ ih =>
    exact .gone ((hsame _ (inherited_of_mem List.mem_cons_self)).trans hi)
      (ih fun j hj => hsame j (hj.mono (List.subset_cons_self _ _)))
  | known hi hlisted _ ih =>
    exact .known ((hsame _ (inherited_of_mem List.mem_cons_self)).trans hi) hlisted
      (ih fun j hj => hsame j (hj.mono (List.subset_cons_self _ _)))
  | new hi hlisted _ ih =>
    refine .new ((hsame _ (inherited_of_mem List.mem_cons_self)).trans hi) hlisted (ih fun j hj => hsame j ?_)
    exact hj.trans fun k hk => inherited_of_mem_step hi hk

theorem head (h : m.Walk given [] found) (hlive : m.Live given) : found.head? = given.head? := by
  cases h with
  | done => rfl
  | gone hi =>
    obtain ⟨d, hd⟩ := hlive _ (inherited_of_mem List.mem_cons_self)
    simp [hi] at hd
  | known _ hlisted => cases hlisted
  | new => rfl

end Walk

/-! ## Capabilities -/

/-- The interfaces are listed with all that they inherit. -/
def Closed (m : Module) (given : List TypeId) : Prop := ∀ i, m.Inherited given i → i ∈ given

theorem has_iff {d : TypeDef} (hd : m.type? t = some d) :
    m.Has c t ↔ (∃ i ∈ d.interfaces, ∃ e, m.type? i = some e ∧ e.name = c.marker)
      ∨ ∃ b ∈ d.base, m.Has c b := by
  constructor
  · rintro ⟨u, e, hderives, he, hmarked⟩
    cases hderives with
    | self =>
      obtain rfl := Option.some.inj (hd.symm.trans he)
      exact .inl hmarked
    | @base _ b _ d' hd' hb hderives =>
      obtain rfl := Option.some.inj (hd.symm.trans hd')
      exact .inr ⟨b, hb, u, e, hderives, he, hmarked⟩
  · rintro (hmarked | ⟨b, hb, u, e, hderives, he, hmarked⟩)
    · exact ⟨t, d, .self t, hd, hmarked⟩
    · exact ⟨u, e, .base hd hb hderives, he, hmarked⟩

/-- A closed list inherits a marker only if it has the marker. -/
theorem Closed.inheritsMarker_iff (h : m.Closed given) :
    m.InheritsMarker given c ↔ ∃ i ∈ given, ∃ e, m.type? i = some e ∧ e.name = c.marker := by
  constructor
  · rintro ⟨i, e, hi, he, hname⟩
    exact ⟨i, h i hi, e, he, hname⟩
  · rintro ⟨i, hi, e, he, hname⟩
    exact ⟨i, e, inherited_of_mem hi, he, hname⟩

/-- If the lists of all base types are closed, a type has a capability exactly if one of them inherits the
marker. -/
theorem has_iff_of_closed
    (h : ∀ u e, m.Derives t u → m.type? u = some e → m.Closed e.interfaces) :
    m.Has c t ↔ ∃ u e, m.Derives t u ∧ m.type? u = some e ∧ m.InheritsMarker e.interfaces c := by
  constructor
  · rintro ⟨u, e, hderives, he, hmarked⟩
    exact ⟨u, e, hderives, he, (h u e hderives he).inheritsMarker_iff.mpr hmarked⟩
  · rintro ⟨u, e, hderives, he, hmarked⟩
    exact ⟨u, e, hderives, he, (h u e hderives he).inheritsMarker_iff.mp hmarked⟩

end Module

namespace TypeSpec

variable {s : TypeSpec} {m m' : Module} {base : Option TypeId} {i : TypeId}

open SetterLoom.Module

/-- What a declared type has by its interfaces. -/
structure Inherits (s : TypeSpec) (m m' : Module) (d : TypeDef) : Prop where
  type : m'.type? ⟨m.types.size⟩ = some d
  others : ∀ u, u ≠ ⟨m.types.size⟩ → m'.type? u = m.type? u
  /-- The search comes to its end, and the type lists what it finds. -/
  walk : m.Walk s.interfaces [] d.interfaces
  nodup : d.interfaces.Nodup
  mem : ∀ i, i ∈ d.interfaces ↔ m.Inherited s.interfaces i
  head : d.interfaces.head? = s.interfaces.head?
  closed : m'.Closed d.interfaces
  /-- As long as only right answers are kept, the type has a capability exactly if the marker is given or
  inherited, or is on a list along the base types. -/
  capable : ∀ (cache : CapabilityCache) (c : Capability), cache.Knows m' →
    ((cache.ask m' c ⟨m.types.size⟩).1 = true
      ↔ m.InheritsMarker s.interfaces c ∨ ∃ b ∈ d.base, m'.Has c b)
  /-- If these lists are closed like that of the type, it is the same to inherit the marker from one. -/
  capableByBase : (∀ b ∈ d.base, ∀ u e, m'.Derives b u → m'.type? u = some e → m'.Closed e.interfaces) →
    ∀ (cache : CapabilityCache) (c : Capability), cache.Knows m' →
      ((cache.ask m' c ⟨m.types.size⟩).1 = true
        ↔ m'.InheritsMarker d.interfaces c ∨ ∃ b ∈ d.base, ∃ u e, m'.Derives b u ∧ m'.type? u = some e
            ∧ m'.InheritsMarker e.interfaces c)

theorem ne_of_inherited (hlive : m.Live s.interfaces) (hi : m.Inherited s.interfaces i) :
    i ≠ ⟨m.types.size⟩ := by
  rintro rfl
  obtain ⟨d, hd⟩ := hlive _ hi
  exact absurd (index_lt_of_type? hd) (Nat.lt_irrefl _)

/-- Registering the type does not change what the search finds. -/
theorem walk_opened (hlive : m.Live s.interfaces) (base : Option TypeId) :
    m.Walk s.interfaces [] (s.opened base m).interfaces := by
  have hwalk := (walk_allInterfaces m s.interfaces).congr fun i hi =>
    type?_registered_of_ne s base m (ne_of_inherited hlive hi)
  have hsame := hwalk.unique (walk_allInterfaces (s.registered base m) s.interfaces)
  show m.Walk s.interfaces [] ((s.registered base m).allInterfaces s.interfaces)
  exact hsame ▸ walk_allInterfaces m s.interfaces

theorem inherits_of_furnished (hlive : m.Live s.interfaces) (hnamed : m.Named s.interfaces)
    (hkept : Furnished ⟨m.types.size⟩ (s.opening base m) m') : ∃ d, s.Inherits m m' d := by
  obtain ⟨d, hd, hbare⟩ := hkept.exists_type? (type?_opening s base m)
  have hinterfaces : d.bare.interfaces = (s.opened base m).bare.interfaces :=
    congrArg TypeDef.interfaces hbare
  have hwalk : m.Walk s.interfaces [] d.interfaces := by
    rw [show d.interfaces = (s.opened base m).interfaces from hinterfaces]
    exact walk_opened hlive base
  have hothers : ∀ u, u ≠ ⟨m.types.size⟩ → m'.type? u = m.type? u := fun u hu =>
    (hkept.others u hu).trans (type?_opening_of_ne s base m hu)
  have hmem : ∀ i, i ∈ d.interfaces ↔ m.Inherited s.interfaces i := fun i =>
    ⟨fun hi => (hwalk.sound hi).1, hwalk.complete hlive hnamed⟩
  have hsame : ∀ i, m.Inherited s.interfaces i → m'.type? i = m.type? i := fun i hi =>
    hothers i (ne_of_inherited hlive hi)
  have hclosed : m'.Closed d.interfaces := by
    intro i hi
    refine inherited_subset (List.Subset.refl _) (fun k hk j hkj => ?_) hi
    obtain ⟨e, he, hlisted⟩ := hkj
    rw [hsame k ((hmem k).mp hk)] at he
    exact (hmem j).mpr (((hmem k).mp hk).tail ⟨e, he, hlisted⟩)
  have hmarker : ∀ c, (∃ i ∈ d.interfaces, ∃ e, m'.type? i = some e ∧ e.name = c.marker)
      ↔ m.InheritsMarker s.interfaces c := by
    intro c
    constructor
    · rintro ⟨i, hi, e, he, hname⟩
      have hin := (hmem i).mp hi
      exact ⟨i, e, hin, (hsame i hin).symm.trans he, hname⟩
    · rintro ⟨i, e, hin, he, hname⟩
      exact ⟨i, (hmem i).mpr hin, e, (hsame i hin).trans he, hname⟩
  have hanswer : ∀ (cache : CapabilityCache) (c : Capability), cache.Knows m' →
      ((cache.ask m' c ⟨m.types.size⟩).1 = true
        ↔ m.InheritsMarker s.interfaces c ∨ ∃ b ∈ d.base, m'.Has c b) := by
    intro cache c hknows
    rw [CapabilityCache.ask_answer hknows, implements_iff, has_iff hd, hmarker]
  refine ⟨d, hd, hothers, hwalk, hwalk.nodup, hmem, hwalk.head hlive, hclosed, hanswer, ?_⟩
  intro hlists cache c hknows
  rw [hanswer cache c hknows, hclosed.inheritsMarker_iff, hmarker]
  refine or_congr_right (exists_congr fun b => and_congr_right fun hb => ?_)
  exact has_iff_of_closed (hlists b hb)

/-- A declaration whose base type is there returns the new type, or fails for want of a handler type; either
way the type lists the given interfaces and all that they inherit, each one once and the first given one in
front, and it has the capabilities that follow from that. -/
theorem declared_inherits (s : TypeSpec) (m : Module) (hbase : ∀ e, ¬ s.LacksBase m e)
    (hlive : m.Live s.interfaces) (hnamed : m.Named s.interfaces) :
    ∃ result m' d, s.declare.run.run m = (result, m')
      ∧ (result = .ok ⟨m.types.size⟩ ∨ m'.LacksHandler s.members) ∧ s.Inherits m m' d := by
  rcases s.declare_cases m with ⟨e, hlacks, -⟩ | ⟨-, base, m', -, hkept, hcases⟩
  · exact absurd hlacks (hbase e)
  · obtain ⟨d, hd⟩ := inherits_of_furnished hlive hnamed hkept
    rcases hcases with ⟨hlacks, hrun, -⟩ | ⟨-, hrun⟩
    · exact ⟨_, m', d, hrun, .inr hlacks, hd⟩
    · exact ⟨_, m', d, hrun, .inl rfl, hd⟩

end TypeSpec

/-! ## A diamond with a cycle -/

namespace Diamond

def interface (token : UInt32) (name : String) (interfaces : List TypeId) : Option TypeDef :=
  some { token := ⟨token⟩, space := "S", name, flavor := .interfaceType, external := false, interfaces }

/-- The top lists two sides, both list a marker, and one of them lists the top again. -/
def types : Array (Option TypeDef) :=
  #[some { token := ⟨1⟩, space := "System", name := "Object", flavor := .object, external := true },
    interface 2 "INotifyPropertyChanged" [], interface 3 "ITop" [⟨3⟩, ⟨4⟩], interface 4 "ILeft" [⟨1⟩, ⟨2⟩],
    interface 5 "IRight" [⟨1⟩]]

def module : Module := ({ name := "Diamond", types } : Module).register ⟨0⟩

def spec : TypeSpec := { space := "S", name := "Bottom", interfaces := [⟨2⟩] }

def reached : List TypeId := [⟨2⟩, ⟨4⟩, ⟨1⟩, ⟨3⟩]

theorem mem_reached {i : TypeId} (hi : module.Inherited spec.interfaces i) : i ∈ reached := by
  have hall : ∀ i ∈ reached, ∀ d ∈ module.type? i, ∀ j ∈ d.interfaces, j ∈ reached := by decide +kernel
  refine Module.inherited_subset (by decide) (fun i hi j hij => ?_) hi
  obtain ⟨d, hd, hj⟩ := hij
  exact hall i hi d hd j hj

theorem live : module.Live spec.interfaces := by
  intro i hi
  have hall : ∀ i ∈ reached, (module.type? i).isSome := by decide +kernel
  exact Option.isSome_iff_exists.mp (hall i (mem_reached hi))

theorem named : module.Named spec.interfaces := by
  intro i j d e hi hj hd he hname
  have hall : ∀ i ∈ reached, ∀ j ∈ reached, ∀ d ∈ module.type? i, ∀ e ∈ module.type? j,
      d.fullName = e.fullName → i = j := by
    decide +kernel
  exact hall i (mem_reached hi) j (mem_reached hj) d hd e he hname

theorem found (e : Error) : ¬ spec.LacksBase module e := by
  rintro ⟨n, hname, hfind, -⟩
  obtain rfl := Option.some.inj hname
  exact absurd hfind (by decide +kernel)

end Diamond

open Diamond in
/-- The marker is listed once, and the type announces its changes. -/
theorem TypeSpec.declared_inherits_diamond :
    (∀ e, ¬ spec.LacksBase module e) ∧ module.Live spec.interfaces ∧ module.Named spec.interfaces
      ∧ ∃ result m' d, spec.declare.run.run module = (result, m') ∧ spec.Inherits module m' d
        ∧ d.interfaces = reached ∧ (({} : CapabilityCache).ask m' .observable ⟨5⟩).1 = true := by
  obtain ⟨result, m', d, hrun, -, hd⟩ := TypeSpec.declared_inherits spec module found live named
  have hlist : d.interfaces = reached := by
    rw [hd.walk.unique (Module.walk_allInterfaces module spec.interfaces)]
    decide +kernel
  have hmarker : module.InheritsMarker spec.interfaces .observable := by
    have hin : (⟨1⟩ : TypeId) ∈ d.interfaces := by
      rw [hlist]
      decide
    exact ⟨⟨1⟩, (interface 2 "INotifyPropertyChanged" []).get rfl, (hd.mem _).mp hin, by decide +kernel, rfl⟩
  exact ⟨found, live, named, result, m', d, hrun, hd, hlist,
    (hd.capable {} .observable (CapabilityCache.knows_empty m')).mpr (.inl hmarker)⟩

end SetterLoom
