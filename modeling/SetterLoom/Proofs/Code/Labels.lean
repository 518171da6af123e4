import SetterLoom.Code.Stream

/-!
# Where a label is found

A label is looked up from the start of a stream or from its end. Both ways find it in the same streams, and
at the same position exactly if no second instruction carries it: a copy of an instruction keeps the label.

* `position?_eq_some`, `lastPosition?_eq_some`: the first and the last position of a label.
* `lastPosition?_eq_none_iff`: the two look-ups fail for the same labels.
* `lastPosition?_eq_position?_iff`: when they find the same position.
-/

namespace SetterLoom.Stream
set_option autoImplicit false

variable {s : Stream} {l : Label} {p q : Nat}

theorem position?_eq_some :
    s.position? l = some p
      ↔ (∃ i, s[p]? = some i ∧ i.label = l) ∧ ∀ q i, q < p → s[q]? = some i → i.label ≠ l := by
  unfold position?
  rw [List.findIdx?_eq_some_iff_getElem]
  constructor
  · rintro ⟨hp, hlabel, hfirst⟩
    refine ⟨⟨s[p], List.getElem?_eq_getElem hp, by simpa using hlabel⟩, fun q i hq hi hl => ?_⟩
    have hne := hfirst q hq
    obtain ⟨hlt, rfl⟩ := List.getElem?_eq_some_iff.mp hi
    simp [hl] at hne
  · rintro ⟨⟨i, hi, hl⟩, hfirst⟩
    obtain ⟨hp, rfl⟩ := List.getElem?_eq_some_iff.mp hi
    refine ⟨hp, by simp [hl], fun q hq => ?_⟩
    have hne := hfirst q s[q] hq (List.getElem?_eq_getElem (by omega))
    simpa using hne

theorem position?_eq_none : s.position? l = none ↔ ∀ i ∈ s, i.label ≠ l := by
  unfold position?
  rw [List.findIdx?_eq_none_iff]
  simp

theorem lastPosition?_eq_some {s : Stream} {l : Label} {p : Nat} :
    s.lastPosition? l = some p
      ↔ (∃ i, s[p]? = some i ∧ i.label = l) ∧ ∀ q i, p < q → s[q]? = some i → i.label ≠ l := by
  -- the look-up from the end is the one from the start of the reversed stream
  have hrev (k : Nat) (hk : k < s.length) : s.reverse[k]? = s[s.length - 1 - k]? :=
    List.getElem?_reverse hk
  unfold lastPosition?
  constructor
  · intro h
    obtain ⟨k, hk, rfl⟩ := Option.map_eq_some_iff.mp h
    obtain ⟨hlt, hlabel, hfirst⟩ := List.findIdx?_eq_some_iff_getElem.mp hk
    rw [List.length_reverse] at hlt
    refine ⟨⟨s[s.length - 1 - k], List.getElem?_eq_getElem (by omega), ?_⟩, ?_⟩
    · rw [List.getElem_reverse] at hlabel
      exact of_decide_eq_true (by simpa using hlabel)
    · intro q i hq hi hl
      have hqlt : q < s.length := (List.getElem?_eq_some_iff.mp hi).1
      have hne := hfirst (s.length - 1 - q) (by omega)
      rw [List.getElem_reverse] at hne
      have hidx : s.length - 1 - (s.length - 1 - q) = q := by omega
      simp only [hidx, (List.getElem?_eq_some_iff.mp hi).2, hl, beq_self_eq_true, not_true] at hne
  · rintro ⟨⟨i, hi, hl⟩, hlast⟩
    have hplt : p < s.length := (List.getElem?_eq_some_iff.mp hi).1
    refine Option.map_eq_some_iff.mpr ⟨s.length - 1 - p, ?_, by omega⟩
    refine List.findIdx?_eq_some_iff_getElem.mpr ⟨by rw [List.length_reverse]; omega, ?_, ?_⟩
    · rw [List.getElem_reverse]
      have hidx : s.length - 1 - (s.length - 1 - p) = p := by omega
      simp only [hidx, (List.getElem?_eq_some_iff.mp hi).2, hl, beq_self_eq_true]
    · intro k hk
      rw [List.getElem_reverse]
      have hne := hlast (s.length - 1 - k) s[s.length - 1 - k] (by omega)
        (List.getElem?_eq_getElem (by omega))
      simpa using hne

theorem lastPosition?_eq_none {s : Stream} {l : Label} :
    s.lastPosition? l = none ↔ ∀ i ∈ s, i.label ≠ l := by
  unfold lastPosition?
  rw [Option.map_eq_none_iff, List.findIdx?_eq_none_iff]
  simp

/-! ## Both look-ups -/

theorem lastPosition?_eq_none_iff : s.lastPosition? l = none ↔ s.position? l = none :=
  lastPosition?_eq_none.trans position?_eq_none.symm

theorem position?_le_lastPosition? (hp : s.position? l = some p) (hq : s.lastPosition? l = some q) :
    p ≤ q := by
  obtain ⟨⟨i, hi, hlabel⟩, -⟩ := position?_eq_some.mp hp
  refine Nat.le_of_not_lt fun hbehind => ?_
  exact (lastPosition?_eq_some.mp hq).2 p i hbehind hi hlabel

/-- At most one instruction carries the label. -/
def CarriedOnce (s : Stream) (l : Label) : Prop :=
  ∀ (p q : Nat) (i j : Instruction), s[p]? = some i → s[q]? = some j → i.label = l → j.label = l → p = q

/-- Both look-ups find the same position exactly if no second instruction carries the label. -/
theorem lastPosition?_eq_position?_iff : s.lastPosition? l = s.position? l ↔ s.CarriedOnce l := by
  constructor
  · intro hsame p q i j hi hj hil hjl
    obtain ⟨x, hx⟩ : ∃ x, s.position? l = some x :=
      Option.ne_none_iff_exists'.mp fun hnone =>
        position?_eq_none.mp hnone i (List.mem_of_getElem? hi) hil
    obtain ⟨-, hfirst⟩ := position?_eq_some.mp hx
    obtain ⟨-, hlast⟩ := lastPosition?_eq_some.mp (hsame.trans hx)
    -- an instruction with the label is neither in front of the first position nor behind the last one
    have hat : ∀ y k, s[y]? = some k → k.label = l → y = x := by
      intro y k hk hl
      rcases Nat.lt_trichotomy y x with hlt | heq | hgt
      · exact absurd hl (hfirst y k hlt hk)
      · exact heq
      · exact absurd hl (hlast y k hgt hk)
    rw [hat p i hi hil, hat q j hj hjl]
  · intro honce
    cases hp : s.position? l with
    | none => exact lastPosition?_eq_none_iff.mpr hp
    | some x =>
      obtain ⟨⟨i, hi, hil⟩, -⟩ := position?_eq_some.mp hp
      refine lastPosition?_eq_some.mpr ⟨⟨i, hi, hil⟩, fun y j hy hj hjl => ?_⟩
      have := honce x y i j hi hj hil hjl
      omega

theorem carriedOnce_of_nodup (hnodup : (s.map (·.label)).Nodup) (l : Label) : s.CarriedOnce l := by
  have hapart : ∀ (p q : Nat) (i j : Instruction), p < q → s[p]? = some i → s[q]? = some j →
      i.label ≠ j.label := by
    intro p q i j hlt hi hj
    obtain ⟨hp, rfl⟩ := List.getElem?_eq_some_iff.mp hi
    obtain ⟨hq, rfl⟩ := List.getElem?_eq_some_iff.mp hj
    have hne := List.pairwise_iff_getElem.mp hnodup p q (by simpa using hp) (by simpa using hq) hlt
    simpa using hne
  intro p q i j hi hj hil hjl
  rcases Nat.lt_trichotomy p q with hlt | heq | hgt
  · exact absurd (hil.trans hjl.symm) (hapart p q i j hlt hi hj)
  · exact heq
  · exact absurd (hjl.trans hil.symm) (hapart q p j i hgt hj hi)

end SetterLoom.Stream
