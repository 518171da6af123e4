import Mathlib.Data.List.Perm.Basic
import SetterLoom.Machine.Hook

/-!
# Hooks are ranked

Hooks are registered one after the other, with any priorities and any patterns. The table has the hooks of
higher priorities in front, and hooks of one priority in the order in which they were registered. These two
facts tell the table: sorting all hooks anew after every registration, with a sort that leaves equals in
their order, would give the same one. So of the hooks that fit a method, the one that is asked has the highest
priority, and it was registered first with that priority.

* `register_cases`: where a hook is placed.
* `Ranked`: what a table is for the hooks that were registered. A registration keeps it
  (`Ranked.register`), and so does any number of them (`ranked_registerAll`).
* `registerAll_eq_mergeSort`: tables by sorting.
* `asked_by_rank`: which hook is asked.
-/

namespace SetterLoom
set_option autoImplicit false

namespace HookTable

variable {hooks : List Hook} {table table' : HookTable} {hook h : Hook} {c : CallName}

/-- Register hooks one after the other. -/
def registerAll (hooks : List Hook) : HookTable := hooks.foldl (fun table hook => table.register hook) []

/-- From the highest priority to the lowest. -/
def Descending (table : HookTable) : Prop := table.Pairwise fun a b => b.priority ≤ a.priority

/-- A hook is placed behind those that do not have a lower priority, and in front of the others. -/
theorem register_cases (hdescending : Descending table) (hook : Hook) :
    ∃ front back, table = front ++ back ∧ table.register hook = front ++ hook :: back
      ∧ (∀ g ∈ front, hook.priority ≤ g.priority) ∧ ∀ g ∈ back, g.priority < hook.priority := by
  induction table with
  | nil => exact ⟨[], [], rfl, rfl, List.forall_mem_nil _, List.forall_mem_nil _⟩
  | cons h rest ih =>
    obtain ⟨hhead, hrest⟩ := List.pairwise_cons.mp hdescending
    by_cases hlt : h.priority < hook.priority
    · refine ⟨[], h :: rest, rfl, register_of_lt hlt, List.forall_mem_nil _, fun g hg => ?_⟩
      rcases List.mem_cons.mp hg with rfl | hg
      · exact hlt
      · exact Int32.lt_of_le_of_lt (hhead g hg) hlt
    · obtain ⟨front, back, rfl, hregister, hfront, hback⟩ := ih hrest
      refine ⟨h :: front, back, rfl, ?_, ?_, hback⟩
      · rw [register, if_neg hlt, hregister]
        rfl
      · exact List.forall_mem_cons.mpr ⟨Int32.not_lt.mp hlt, hfront⟩

/-! ## Tables and what was registered -/

/-- The table has the registered hooks from the highest priority to the lowest, and those of one priority in
the order in which they were registered. -/
structure Ranked (hooks : List Hook) (table : HookTable) : Prop where
  descending : Descending table
  ties : ∀ p, table.filter (·.priority = p) = hooks.filter (·.priority = p)

theorem ranked_nil : Ranked [] [] := ⟨.nil, fun _ => rfl⟩

theorem Ranked.register (hranked : Ranked hooks table) (hook : Hook) :
    Ranked (hooks ++ [hook]) (table.register hook) := by
  obtain ⟨front, back, rfl, hregister, hfront, hback⟩ := register_cases hranked.descending hook
  obtain ⟨hdfront, hdback, hacross⟩ := List.pairwise_append.mp hranked.descending
  rw [hregister]
  refine ⟨List.pairwise_append.mpr ⟨hdfront, List.pairwise_cons.mpr ⟨?_, hdback⟩, ?_⟩, fun p => ?_⟩
  · exact fun g hg => Int32.le_of_lt (hback g hg)
  · intro g hg g' hg'
    rcases List.mem_cons.mp hg' with rfl | hg'
    · exact hfront g hg
    · exact hacross g hg g' hg'
  · rw [List.filter_append hooks, ← hranked.ties p, List.filter_append, List.filter_append]
    by_cases hp : hook.priority = p
    · -- the hooks behind the new one have lower priorities
      have hnone : back.filter (·.priority = p) = [] :=
        List.filter_eq_nil_iff.mpr fun g hg hgp =>
          absurd (hback g hg) (by rw [of_decide_eq_true hgp, hp]; exact Int32.lt_irrefl)
      rw [List.filter_cons_of_pos (by simp [hp]), hnone]
      simp [hp]
    · simp [hp]

theorem Ranked.foldl (hranked : Ranked hooks table) (more : List Hook) :
    Ranked (hooks ++ more) (more.foldl (fun table hook => table.register hook) table) := by
  induction more generalizing hooks table with
  | nil => rwa [List.append_nil]
  | cons hook more ih =>
    rw [List.append_cons]
    exact ih (hranked.register hook)

theorem ranked_registerAll (hooks : List Hook) : Ranked hooks (registerAll hooks) :=
  ranked_nil.foldl hooks

/-! ## Tables by sorting -/

/-- The comparison of a sort by descending priority. -/
def notBelow (a b : Hook) : Bool := b.priority ≤ a.priority

theorem ranked_mergeSort (hooks : List Hook) : Ranked hooks (hooks.mergeSort notBelow) := by
  have htrans : ∀ a b d : Hook, notBelow a b = true → notBelow b d = true → notBelow a d = true := by
    simp only [notBelow, decide_eq_true_eq]
    exact fun a b d hab hbd => Int32.le_trans hbd hab
  have htotal : ∀ a b : Hook, (notBelow a b || notBelow b a) = true := by
    simp only [notBelow, Bool.or_eq_true, decide_eq_true_eq]
    exact fun a b => Int32.le_total b.priority a.priority
  refine ⟨(List.pairwise_mergeSort htrans htotal hooks).imp of_decide_eq_true, fun p => ?_⟩
  -- hooks of one priority are in order already, so sorting leaves them as they are
  have hlevel : (hooks.filter (·.priority = p)).Pairwise fun a b => notBelow a b = true := by
    refine List.pairwise_of_forall_mem_list fun a ha b hb => decide_eq_true ?_
    rw [of_decide_eq_true (List.mem_filter.mp ha).2, of_decide_eq_true (List.mem_filter.mp hb).2]
    exact Int32.le_refl p
  have hsub := (List.sublist_mergeSort htrans htotal hlevel List.filter_sublist).filter (·.priority = p)
  simp only [List.filter_filter, Bool.and_self] at hsub
  exact (hsub.eq_of_length ((List.mergeSort_perm hooks notBelow).filter _).length_eq.symm).symm

/-- There is only one such table: its first hook has the highest priority, and is the first one with it. -/
theorem Ranked.unique (hranked : Ranked hooks table) (hranked' : Ranked hooks table') : table = table' := by
  have hties : ∀ p, table.filter (·.priority = p) = table'.filter (·.priority = p) := fun p =>
    (hranked.ties p).trans (hranked'.ties p).symm
  have hdescending := hranked.descending
  have hdescending' := hranked'.descending
  clear hranked hranked'
  induction table generalizing table' with
  | nil =>
    cases table' with
    | nil => rfl
    | cons b rest' => exact absurd (hties b.priority) (by simp)
  | cons a rest ih =>
    cases table' with
    | nil => exact absurd (hties a.priority) (by simp)
    | cons b rest' =>
      obtain ⟨ha, hrest⟩ := List.pairwise_cons.mp hdescending
      obtain ⟨hb, hrest'⟩ := List.pairwise_cons.mp hdescending'
      have hmem : ∀ {g : Hook}, g ∈ a :: rest ↔ g ∈ b :: rest' := by
        intro g
        have hg := congrArg (g ∈ ·) (hties g.priority)
        simpa only [List.mem_filter, decide_true, and_true, eq_iff_iff] using hg
      have htop : ∀ g ∈ a :: rest, g.priority ≤ a.priority :=
        List.forall_mem_cons.mpr ⟨Int32.le_refl _, ha⟩
      have htop' : ∀ g ∈ b :: rest', g.priority ≤ b.priority :=
        List.forall_mem_cons.mpr ⟨Int32.le_refl _, hb⟩
      -- each of the two first hooks has the highest priority there is, so the
      -- first of that priority is first in both
      have hp : a.priority = b.priority := Int32.le_antisymm
        (htop' a (hmem.mp List.mem_cons_self)) (htop b (hmem.mpr List.mem_cons_self))
      obtain ⟨rfl, -⟩ : a = b ∧ _ := by
        have hlevel := hties a.priority
        rw [List.filter_cons_of_pos (by simp), List.filter_cons_of_pos (by simp [hp])] at hlevel
        exact List.cons.inj hlevel
      refine congrArg (a :: ·) (ih (fun p => ?_) hrest hrest')
      have hlevel := hties p
      simp only [List.filter_cons] at hlevel
      split at hlevel
      · exact (List.cons.inj hlevel).2
      · exact hlevel

/-- The table is what a stable sort of all registered hooks gives. -/
theorem registerAll_eq_mergeSort (hooks : List Hook) : registerAll hooks = hooks.mergeSort notBelow :=
  (ranked_registerAll hooks).unique (ranked_mergeSort hooks)

theorem perm_registerAll (hooks : List Hook) : (registerAll hooks).Perm hooks := by
  rw [registerAll_eq_mergeSort]
  exact List.mergeSort_perm hooks notBelow

/-! ## The hook that is asked -/

/-- Among the hooks that fit the method, the one of the highest priority that was registered first. -/
def Foremost (hooks : List Hook) (c : CallName) (h : Hook) : Prop :=
  h.fits c ∧ ∃ before behind, hooks = before ++ h :: behind
    ∧ (∀ g ∈ before, g.fits c → g.priority < h.priority) ∧ ∀ g ∈ behind, g.fits c → g.priority ≤ h.priority

/-- It is the first with its priority, and no other one has a higher priority. -/
theorem foremost_iff : Foremost hooks c h ↔
    (hooks.filter (·.priority = h.priority)).find? (·.fits c) = some h
      ∧ ∀ g ∈ hooks, g.fits c → g.priority ≤ h.priority := by
  rw [List.find?_filter, List.find?_eq_some_iff_append]
  simp only [decide_eq_true_eq, true_and]
  constructor
  · rintro ⟨hfits, before, behind, rfl, hbefore, hbehind⟩
    refine ⟨⟨hfits, before, behind, rfl, fun g hg => ?_⟩, fun g hg hgfits => ?_⟩
    · simp only [Bool.not_eq_true', decide_eq_false_iff_not]
      rintro ⟨hp, hgfits⟩
      exact absurd (hbefore g hg hgfits) (by rw [hp]; exact Int32.lt_irrefl)
    · rcases List.mem_append.mp hg with hg | hg
      · exact Int32.le_of_lt (hbefore g hg hgfits)
      · rcases List.mem_cons.mp hg with rfl | hg
        · exact Int32.le_refl _
        · exact hbehind g hg hgfits
  · rintro ⟨⟨hfits, before, behind, rfl, hbefore⟩, htop⟩
    refine ⟨hfits, before, behind, rfl, fun g hg hgfits => ?_, fun g hg => ?_⟩
    · have hne : g.priority ≠ h.priority := by
        have hno := hbefore g hg
        simp only [Bool.not_eq_true', decide_eq_false_iff_not] at hno
        exact fun hp => hno ⟨hp, hgfits⟩
      exact Int32.lt_of_le_of_ne (htop g (List.mem_append_left _ hg) hgfits) hne
    · exact htop g (List.mem_append_right _ (List.mem_cons_of_mem _ hg))

theorem Foremost.unique {h' : Hook} (hfore : Foremost hooks c h) (hfore' : Foremost hooks c h') :
    h = h' := by
  have hmem : ∀ {g}, Foremost hooks c g → g ∈ hooks := by
    rintro g ⟨-, before, behind, rfl, -⟩
    exact List.mem_append_right _ List.mem_cons_self
  have hp : h.priority = h'.priority := Int32.le_antisymm
    ((foremost_iff.mp hfore').2 h (hmem hfore) hfore.1) ((foremost_iff.mp hfore).2 h' (hmem hfore') hfore'.1)
  have hfirst := (foremost_iff.mp hfore).1
  rw [hp, (foremost_iff.mp hfore').1] at hfirst
  exact (Option.some.inj hfirst).symm

/-- In a ranked table the first hook that fits is the foremost of those that were registered. -/
theorem Ranked.foremost_of_find? (hranked : Ranked hooks table) (hmem : ∀ g ∈ hooks, g ∈ table)
    (hfind : table.find? c = some h) : Foremost hooks c h := by
  obtain ⟨hfits, front, back, rfl, hfront⟩ := List.find?_eq_some_iff_append.mp hfind
  rw [foremost_iff, ← hranked.ties, List.filter_append, List.filter_cons_of_pos (by simp)]
  refine ⟨List.find?_eq_some_iff_append.mpr ⟨hfits, _, _, rfl, fun g hg => ?_⟩, fun g hg hgfits => ?_⟩
  · exact hfront g (List.mem_filter.mp hg).1
  · rcases List.mem_append.mp (hmem g hg) with hg | hg
    · exact absurd hgfits (by simpa using hfront g hg)
    · rcases List.mem_cons.mp hg with rfl | hg
      · exact Int32.le_refl _
      · exact (List.pairwise_cons.mp (List.pairwise_append.mp hranked.descending).2.1).1 g hg

/-- Whatever hooks are registered, with whatever priorities and patterns: a hook is asked for a method exactly
if one that was registered fits, and then the one of the highest priority that was registered first with it. A
registration leaves the others in their order, and the table has as many hooks as were registered. -/
theorem asked_by_rank (hooks : List Hook) :
    (∀ c, ((registerAll hooks).find? c).isSome ↔ ∃ h ∈ hooks, h.fits c)
      ∧ (∀ c h, (registerAll hooks).find? c = some h ↔ Foremost hooks c h)
      ∧ (∀ hook, ∃ front back, registerAll hooks = front ++ back
          ∧ registerAll (hooks ++ [hook]) = front ++ hook :: back)
      ∧ (registerAll hooks).length = hooks.length := by
  have hranked := ranked_registerAll hooks
  have hmem : ∀ {g}, g ∈ registerAll hooks ↔ g ∈ hooks := (perm_registerAll hooks).mem_iff
  have hasked : ∀ c, ((registerAll hooks).find? c).isSome ↔ ∃ h ∈ hooks, h.fits c := by
    intro c
    rw [find?, List.find?_isSome]
    simp only [hmem]
  refine ⟨hasked, fun c h => ?_, fun hook => ?_, (perm_registerAll hooks).length_eq⟩
  · refine ⟨hranked.foremost_of_find? fun g => hmem.mpr, fun hfore => ?_⟩
    have hfits : ∃ g ∈ hooks, g.fits c := by
      obtain ⟨hfits, before, behind, rfl, -⟩ := hfore
      exact ⟨h, List.mem_append_right _ List.mem_cons_self, hfits⟩
    obtain ⟨g, hg⟩ := Option.isSome_iff_exists.mp ((hasked c).mpr hfits)
    rw [hg, hfore.unique (hranked.foremost_of_find? (fun g => hmem.mpr) hg)]
  · obtain ⟨front, back, htable, hregister, -⟩ := register_cases hranked.descending hook
    refine ⟨front, back, htable, ?_⟩
    rw [registerAll, List.foldl_append]
    exact hregister

/-- A late hook, an early one and one without a wish, all for the same method: the early one is asked. -/
example : ((registerAll
    [{ name := "fallback", priority := lowPriority, pattern := some { method := some "Equals" } },
      { name := "specific", priority := highPriority, pattern := some { method := some "Equals" } },
      { name := "default", pattern := some { method := some "Equals" } }]).find?
    ⟨"Sample", "Object", "Equals"⟩).map (·.name) = some "specific" := by
  decide +kernel

end HookTable

end SetterLoom
