import SetterLoom.Module.Hierarchy
import Mathlib.Data.Fintype.Card
import Mathlib.Data.List.Perm.Subperm

/-!
# Lines without repetitions

If no type is among its own base types, then a walk along the base types of a type comes to an end, and it
visits at most as many types as there are.

* `mem_line`: whatever the base types are, a walk along them comes to no type that the line misses.
* `Acyclic`: base types have a smaller rank.
* `length_lineUpTo_le`, `lineUpTo_eq_line`: however far a walk may go, it ends with the line.
-/

namespace SetterLoom.Module
set_option autoImplicit false

variable {m : Module} {t : TypeId} {d : TypeDef}

theorem index_lt_of_type? (h : m.type? t = some d) : t.index < m.types.size := by
  exact (Array.getElem?_eq_some_iff.mp (Option.join_eq_some_iff.mp h)).1

/-- The base type of a type, if both are there. -/
def nextBase (m : Module) (t : Option TypeId) : Option TypeId := t.bind fun t => (m.type? t).bind (·.base)

/-- What a walk visits is reached in fewer steps than it may take. -/
theorem mem_lineUpTo_iff {bound : Nat} {e : TypeId × TypeDef} :
    e ∈ m.lineUpTo bound t
      ↔ m.type? e.1 = some e.2 ∧ ∃ n < bound, m.nextBase^[n] (some t) = some e.1 := by
  refine ⟨fun he => ⟨type?_of_mem_lineUpTo he, ?_⟩, ?_⟩
  -- by induction on how far the walk may go, and in the other direction on the number of steps
  · induction bound generalizing t with
    | zero => exact absurd he List.not_mem_nil
    | succ bound ih =>
      cases hd : m.type? t with
      | none =>
        rw [lineUpTo_of_none _ hd] at he
        exact absurd he List.not_mem_nil
      | some d =>
        rw [lineUpTo_eq_cons bound hd] at he
        rcases List.mem_cons.mp he with rfl | he
        · exact ⟨0, Nat.succ_pos bound, rfl⟩
        · cases hb : d.base with
          | none => simp [hb] at he
          | some b =>
            rw [hb] at he
            obtain ⟨n, hn, hreached⟩ := ih he
            have hnext : m.nextBase (some t) = some b := by simp [nextBase, hd, hb]
            exact ⟨n + 1, Nat.succ_lt_succ hn, by rw [Function.iterate_succ_apply, hnext, hreached]⟩
  · rintro ⟨he, n, hn, hreached⟩
    induction n generalizing t bound with
    | zero =>
      obtain ⟨bound, rfl⟩ : ∃ k, bound = k + 1 := ⟨bound - 1, by omega⟩
      obtain rfl : t = e.1 := Option.some.inj hreached
      rw [lineUpTo_eq_cons bound he]
      exact List.mem_cons_self
    | succ n ih =>
      obtain ⟨bound, rfl⟩ : ∃ k, bound = k + 1 := ⟨bound - 1, by omega⟩
      rw [Function.iterate_succ_apply] at hreached
      cases hb : m.nextBase (some t) with
      | none =>
        have hnone : m.nextBase^[n] none = none := Function.iterate_fixed rfl n
        rw [hb, hnone] at hreached
        cases hreached
      | some b =>
        rw [hb] at hreached
        have hbind : (m.type? t).bind (·.base) = some b := hb
        obtain ⟨d, hd, hbase⟩ := Option.bind_eq_some_iff.mp hbind
        rw [lineUpTo_eq_cons bound hd, hbase]
        exact List.mem_cons_of_mem _ (ih (by omega) hreached)

/-- A walk along base types comes to no type that the line misses: the first time it comes to a type it has
visited no type twice, and there are no more types than the line is long. -/
theorem mem_line {bound : Nat} {e : TypeId × TypeDef} (h : e ∈ m.lineUpTo bound t) : e ∈ m.line t := by
  obtain ⟨he, hreached⟩ := mem_lineUpTo_iff.mp h
  have hexists : ∃ n, m.nextBase^[n] (some t) = some e.1 := hreached.imp fun _ hn => hn.2
  let visited (k : Nat) : Option TypeId := m.nextBase^[k] (some t)
  let n := Nat.find hexists
  have hlast : visited n = some e.1 := Nat.find_spec hexists
  have hmin : ∀ k < n, visited k ≠ some e.1 := fun k hk => Nat.find_min hexists hk
  have hlater : ∀ i k, visited (i + k) = m.nextBase^[k] (visited i) := fun i k => by
    show m.nextBase^[i + k] (some t) = m.nextBase^[k] (m.nextBase^[i] (some t))
    rw [Nat.add_comm, Function.iterate_add_apply]
  -- a walk that left the types would not come back to one of them
  have htype : ∀ k ≤ n, ∃ u d, visited k = some u ∧ m.type? u = some d := by
    intro k hk
    rcases Nat.eq_or_lt_of_le hk with rfl | hlt
    · exact ⟨e.1, e.2, hlast, he⟩
    · obtain ⟨j, hj⟩ := Nat.exists_eq_add_of_le hlt
      have hnext : visited n = m.nextBase^[j] (m.nextBase (visited k)) := by
        rw [hj, hlater (k + 1) j]
        exact congrArg _ (Function.iterate_succ_apply' m.nextBase k (some t))
      cases hnone : m.nextBase (visited k) with
      | none =>
        have hfixed : m.nextBase^[j] none = none := Function.iterate_fixed rfl j
        rw [hlast, hnone, hfixed] at hnext
        cases hnext
      | some b =>
        obtain ⟨u, hu, hbind⟩ := Option.bind_eq_some_iff.mp hnone
        obtain ⟨d, hd, -⟩ := Option.bind_eq_some_iff.mp hbind
        exact ⟨u, d, hu, hd⟩
  -- a type visited twice would lead to the last one sooner than at first
  have hdistinct : ∀ i j, i < j → j ≤ n → visited i ≠ visited j := by
    intro i j hij hj heq
    obtain ⟨k, hk⟩ := Nat.exists_eq_add_of_le hj
    refine hmin (i + k) (by omega) ?_
    rw [hlater, heq, ← hlater, ← hk]
    exact hlast
  have hindex : ∀ k : Fin (n + 1), ∃ u : TypeId, visited k = some u ∧ u.index < m.types.size :=
    fun k => by
      obtain ⟨u, d, hu, hd⟩ := htype k (Nat.le_of_lt_succ k.isLt)
      exact ⟨u, hu, index_lt_of_type? hd⟩
  -- different types have different places, so there are no more of them than places
  choose u hu hlt using hindex
  have hinjective : Function.Injective fun k => (⟨(u k).index, hlt k⟩ : Fin m.types.size) := by
    intro i j hij
    have hsame : visited i = visited j := by
      rw [hu, hu]
      exact congrArg some (congrArg TypeId.mk (Fin.mk.inj hij))
    rcases Nat.lt_trichotomy i j with hlt | heq | hlt
    · exact absurd hsame (hdistinct i j hlt (Nat.le_of_lt_succ j.isLt))
    · exact Fin.ext heq
    · exact absurd hsame.symm (hdistinct j i hlt (Nat.le_of_lt_succ i.isLt))
  have hcard := Fintype.card_le_of_injective _ hinjective
  rw [Fintype.card_fin, Fintype.card_fin] at hcard
  exact mem_lineUpTo_iff.mpr ⟨he, n, hcard, hlast⟩

/-- No type is among its own base types. -/
def Acyclic (m : Module) : Prop :=
  ∃ rank : TypeId → Nat, ∀ t d b, m.type? t = some d → d.base = some b → rank b < rank t

theorem acyclic_of_declared
    (h : ∀ k < m.types.size, ((m.type? ⟨k⟩).bind (·.base)).all (·.index < k) = true) : m.Acyclic := by
  refine ⟨TypeId.index, fun t d b hd hb => ?_⟩
  have hlt : t.index < m.types.size := index_lt_of_type? hd
  have hall := h t.index hlt
  rw [show m.type? ⟨t.index⟩ = some d from hd, Option.bind_some, hb] at hall
  exact of_decide_eq_true hall

theorem rank_lineUpTo {rank : TypeId → Nat}
    (hrank : ∀ t d b, m.type? t = some d → d.base = some b → rank b < rank t) (bound : Nat) (t : TypeId) :
    (∀ e ∈ m.lineUpTo bound t, rank e.1 ≤ rank t)
      ∧ (m.lineUpTo bound t).Pairwise fun e e' => rank e'.1 < rank e.1 := by
  induction bound generalizing t with
  | zero => exact ⟨fun _ he => absurd he List.not_mem_nil, .nil⟩
  | succ bound ih =>
    cases hd : m.type? t with
    | none =>
      rw [lineUpTo_of_none _ hd]
      exact ⟨fun _ he => absurd he List.not_mem_nil, .nil⟩
    | some d =>
      rw [lineUpTo_eq_cons bound hd]
      cases hb : d.base with
      | none =>
        refine ⟨fun e he => ?_, List.pairwise_singleton _ _⟩
        obtain rfl := List.mem_singleton.mp he
        exact Nat.le_refl _
      | some b =>
        obtain ⟨hle, hpairwise⟩ := ih b
        have hlt := hrank t d b hd hb
        refine ⟨fun e he => ?_, List.pairwise_cons.mpr ⟨fun e he => Nat.lt_of_le_of_lt (hle e he) hlt, hpairwise⟩⟩
        rcases List.mem_cons.mp he with rfl | he
        · exact Nat.le_refl _
        · exact Nat.le_of_lt (Nat.lt_of_le_of_lt (hle e he) hlt)

theorem length_lineUpTo_le (hacyclic : m.Acyclic) (bound : Nat) (t : TypeId) :
    (m.lineUpTo bound t).length ≤ m.types.size := by
  obtain ⟨rank, hrank⟩ := hacyclic
  have hnodup : ((m.lineUpTo bound t).map (·.1.index)).Nodup := by
    refine List.pairwise_map.mpr ((rank_lineUpTo hrank bound t).2.imp fun {e e'} hlt heq => ?_)
    have hid : e.1 = e'.1 := congrArg TypeId.mk heq
    exact absurd hlt (hid ▸ Nat.lt_irrefl _)
  have hsub : (m.lineUpTo bound t).map (·.1.index) ⊆ List.range m.types.size := by
    intro k hk
    obtain ⟨e, he, rfl⟩ := List.mem_map.mp hk
    exact List.mem_range.mpr (index_lt_of_type? (type?_of_mem_lineUpTo he))
  have hlength := (List.subperm_of_subset hnodup hsub).length_le
  rwa [List.length_map, List.length_range] at hlength

theorem lineUpTo_succ {bound : Nat} (h : (m.lineUpTo (bound + 1) t).length ≤ bound) :
    m.lineUpTo (bound + 1) t = m.lineUpTo bound t := by
  induction bound generalizing t with
  | zero => exact List.length_eq_zero_iff.mp (Nat.le_zero.mp h)
  -- a line that is shorter than the bound ends with a type without a
  -- base type, or behind one that is missing
  | succ bound ih =>
    cases hd : m.type? t with
    | none => rw [lineUpTo_of_none _ hd, lineUpTo_of_none _ hd]
    | some d =>
      rw [lineUpTo_eq_cons _ hd] at h ⊢
      rw [lineUpTo_eq_cons _ hd]
      cases hb : d.base with
      | none => rfl
      | some b =>
        rw [hb] at h
        exact congrArg _ (ih (Nat.le_of_succ_le_succ h))

/-- However far a walk along base types may go, it ends with the line. -/
theorem lineUpTo_eq_line (hacyclic : m.Acyclic) {bound : Nat} (hbound : m.types.size ≤ bound)
    (t : TypeId) : m.lineUpTo bound t = m.line t := by
  obtain ⟨k, rfl⟩ := Nat.exists_eq_add_of_le hbound
  clear hbound
  induction k with
  | zero => rfl
  | succ k ih =>
    have hlength := Nat.le_trans (length_lineUpTo_le hacyclic (m.types.size + k + 1) t)
      (Nat.le_add_right _ k)
    rw [← Nat.add_assoc, lineUpTo_succ hlength, ih]

end SetterLoom.Module
