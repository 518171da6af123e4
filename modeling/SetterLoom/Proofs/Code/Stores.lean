import SetterLoom.Code.Stream

/-!
# Where the stores into a field end

The positions that `Stream.stores` lists are right behind the stores into a field of a name. A store is
one instruction, or two if the field gets its default through its address, and no two stores end at one
position.

* `mem_stores`: what stands in front of a listed position.
* `pairwise_stores`: the list is strictly ascending.
* `le_length_of_mem_stores`: the positions are positions of the stream, its end included.
-/

namespace SetterLoom
set_option autoImplicit false

namespace Op

variable {name : String} {op : Op}

theorem storesTo_iff :
    op.storesTo name = true ↔ op.code = .stfld ∧ op.field?.map (·.name) = some name := by
  unfold storesTo
  cases op.field? <;> simp

theorem addresses_iff :
    op.addresses name = true ↔ op.code = .ldflda ∧ op.field?.map (·.name) = some name := by
  unfold addresses
  cases op.field? <;> simp

theorem not_storesTo_of_addresses (h : op.addresses name = true) : op.storesTo name = false := by
  have hcode : op.code = .ldflda := (addresses_iff.mp h).1
  simp [storesTo, hcode]

end Op

namespace Stream

/-- A store into a field of the name ends in front of the position. -/
def StoreEndsAt (name : String) (s : Stream) (p : Nat) : Prop :=
  (∃ i, 0 < p ∧ s[p - 1]? = some i ∧ i.op.storesTo name)
    ∨ ∃ i j, 1 < p ∧ s[p - 2]? = some i ∧ i.op.addresses name ∧ s[p - 1]? = some j
      ∧ j.code = .initobj

theorem storeEndsAt_cons_succ {name : String} {i : Instruction} {rest : Stream} {p : Nat}
    (hp : 0 < p) (hsecond : 1 < p ∨ (p = 1 ∧ (i.op.addresses name && startsWithInit rest) = false)) :
    StoreEndsAt name (i :: rest) (p + 1) ↔ StoreEndsAt name rest p := by
  obtain ⟨q, rfl⟩ : ∃ q, p = q + 1 := ⟨p - 1, by omega⟩
  simp only [StoreEndsAt, Nat.add_sub_cancel, List.getElem?_cons_succ, Nat.zero_lt_succ, true_and]
  refine or_congr Iff.rfl ?_
  rcases hsecond with hlt | ⟨hone, hnot⟩
  · obtain ⟨r, rfl⟩ : ∃ r, q = r + 1 := ⟨q - 1, by omega⟩
    simp only [show r + 1 + 1 + 1 - 2 = r + 1 by omega, show r + 1 + 1 - 2 = r by omega,
      List.getElem?_cons_succ, show (1 < r + 1 + 1 + 1) = True by simp,
      show (1 < r + 1 + 1) = True by simp]
  · obtain rfl : q = 0 := by omega
    constructor
    · rintro ⟨a, j, -, ha, hname, hj, hcode⟩
      obtain rfl : i = a := by simpa using ha
      have hinit : startsWithInit rest = true := by
        cases rest with
        | nil => simp at hj
        | cons b _ =>
          obtain rfl : b = j := by simpa using hj
          simp [startsWithInit, hcode]
      rw [hname, hinit] at hnot
      exact absurd hnot (by decide)
    · rintro ⟨_, _, h, _⟩
      omega

theorem startsWithInit_eq_true {s : Stream} :
    startsWithInit s = true ↔ ∃ j, s[0]? = some j ∧ j.code = .initobj := by
  cases s with
  | nil => simp [startsWithInit]
  | cons i rest => simp [startsWithInit]

private theorem mem_storesFrom {name : String} {start p : Nat} {s : Stream} :
    p ∈ storesFrom name start s ↔ ∃ k, p = start + k ∧ StoreEndsAt name s k := by
  induction s generalizing start with
  | nil => simp [storesFrom, StoreEndsAt]
  | cons i rest ih =>
    -- the stores behind the first instruction are those of the rest, one position further on
    have htail (h : (i.op.addresses name && startsWithInit rest) = false
        ∨ ∀ k, p = start + k → k ≠ 2) :
        p ∈ storesFrom name (start + 1) rest
          ↔ ∃ k, 1 < k ∧ p = start + k ∧ StoreEndsAt name (i :: rest) k := by
      rw [ih]
      constructor
      · rintro ⟨k, rfl, hk⟩
        have hpos : 0 < k := by
          rcases hk with ⟨_, h0, _⟩ | ⟨_, _, h1, _⟩ <;> omega
        refine ⟨k + 1, by omega, by omega, (storeEndsAt_cons_succ hpos ?_).mpr hk⟩
        rcases h with h | h
        · rcases Nat.lt_or_ge 1 k with hlt | hle
          · exact .inl hlt
          · exact .inr ⟨by omega, h⟩
        · exact .inl (by have := h (k + 1) (by omega); omega)
      · rintro ⟨k, hk1, rfl, hk⟩
        obtain ⟨q, rfl⟩ : ∃ q, k = q + 1 := ⟨k - 1, by omega⟩
        refine ⟨q, by omega, (storeEndsAt_cons_succ (by omega) ?_).mp hk⟩
        rcases h with h | h
        · rcases Nat.lt_or_ge 1 q with hlt | hle
          · exact .inl hlt
          · exact .inr ⟨by omega, h⟩
        · exact .inl (by have := h (q + 1) rfl; omega)
    have hone : StoreEndsAt name (i :: rest) 1 ↔ i.op.storesTo name = true := by
      simp [StoreEndsAt]
    have htwo : StoreEndsAt name (i :: rest) 2
        ↔ StoreEndsAt name rest 1 ∨ (i.op.addresses name && startsWithInit rest) = true := by
      simp [StoreEndsAt, startsWithInit_eq_true]
    have hsplit : (∃ k, p = start + k ∧ StoreEndsAt name (i :: rest) k)
        ↔ (p = start + 1 ∧ i.op.storesTo name = true)
          ∨ ∃ k, 1 < k ∧ p = start + k ∧ StoreEndsAt name (i :: rest) k := by
      constructor
      · rintro ⟨k, rfl, hk⟩
        rcases Nat.lt_trichotomy k 1 with h0 | rfl | h1
        · rcases hk with ⟨_, h, _⟩ | ⟨_, _, h, _⟩ <;> omega
        · exact .inl ⟨rfl, hone.mp hk⟩
        · exact .inr ⟨k, h1, rfl, hk⟩
      · rintro (⟨rfl, h⟩ | ⟨k, -, rfl, hk⟩)
        · exact ⟨1, rfl, hone.mpr h⟩
        · exact ⟨k, rfl, hk⟩
    rw [hsplit, storesFrom]
    split
    · rename_i hstore
      have hnot : (i.op.addresses name && startsWithInit rest) = false := by
        cases ha : i.op.addresses name with
        | false => rfl
        | true =>
          rw [Op.not_storesTo_of_addresses ha] at hstore
          exact absurd hstore (by decide)
      rw [List.mem_cons, htail (.inl hnot)]
      simp [hstore]
    · rename_i hstore
      split
      · rename_i hinit
        rw [List.mem_cons]
        by_cases hp : p = start + 2
        · subst hp
          simp only [true_or, true_iff]
          exact .inr ⟨2, by omega, rfl, htwo.mpr (.inr hinit)⟩
        · rw [htail (.inr fun k hk h2 => hp (by omega))]
          simp [hstore, hp]
      · rename_i hinit
        rw [htail (.inl (by simpa using hinit))]
        simp [hstore]

/-- A position is listed exactly if a store into a field of the name ends in front of it. -/
theorem mem_stores {s : Stream} {name : String} {p : Nat} :
    p ∈ s.stores name ↔ StoreEndsAt name s p := by
  rw [stores, mem_storesFrom]
  simp

private theorem lt_of_mem_storesFrom {name : String} {start p : Nat} {s : Stream}
    (h : p ∈ storesFrom name start s) : start < p := by
  obtain ⟨k, rfl, hk⟩ := mem_storesFrom.mp h
  rcases hk with ⟨_, h0, _⟩ | ⟨_, _, h1, _⟩ <;> omega

private theorem pairwise_storesFrom (name : String) (start : Nat) (s : Stream) :
    (storesFrom name start s).Pairwise (· < ·) := by
  induction s generalizing start with
  | nil => exact List.Pairwise.nil
  | cons i rest ih =>
    rw [storesFrom]
    split
    · exact List.pairwise_cons.mpr ⟨fun p hp => lt_of_mem_storesFrom hp, ih (start + 1)⟩
    · split
      · rename_i hinit
        refine List.pairwise_cons.mpr ⟨fun p hp => ?_, ih (start + 1)⟩
        have hlt := lt_of_mem_storesFrom hp
        -- the instruction that initialises is no store by itself
        have hne : p ≠ start + 2 := by
          rintro rfl
          obtain ⟨k, hk, hends⟩ := mem_storesFrom.mp hp
          obtain rfl : k = 1 := by omega
          obtain ⟨j, hj, hcode⟩ :=
            startsWithInit_eq_true.mp (Bool.and_eq_true_iff.mp hinit).2
          rcases hends with ⟨a, -, ha, hstore⟩ | ⟨_, _, h, _⟩
          · obtain rfl : j = a := by simpa [hj] using ha
            exact absurd (hcode.symm.trans (Op.storesTo_iff.mp hstore).1) (by decide)
          · omega
        omega
      · exact ih (start + 1)

theorem pairwise_stores (s : Stream) (name : String) : (s.stores name).Pairwise (· < ·) :=
  pairwise_storesFrom name 0 s

theorem pos_of_mem_stores {s : Stream} {name : String} {p : Nat} (h : p ∈ s.stores name) : 0 < p :=
  lt_of_mem_storesFrom h

theorem le_length_of_mem_stores {s : Stream} {name : String} {p : Nat} (h : p ∈ s.stores name) :
    p ≤ s.length := by
  have hlt (q : Nat) (i : Instruction) (hi : s[q]? = some i) : q < s.length :=
    (List.getElem?_eq_some_iff.mp hi).1
  rcases mem_stores.mp h with ⟨i, hp, hi, -⟩ | ⟨-, j, hp, -, -, hj, -⟩
  · have := hlt _ i hi
    omega
  · have := hlt _ j hj
    omega

theorem lastReturn_le (s : Stream) : s.lastReturn ≤ s.length := by
  unfold lastReturn
  split <;> omega

theorem getElem?_lastReturn {s : Stream} {q : Nat} {i : Instruction} (hi : s[q]? = some i)
    (hcode : i.code = .ret) :
    q ≤ s.lastReturn ∧ ∃ j, s[s.lastReturn]? = some j ∧ j.code = .ret := by
  have hlt : q < s.length := (List.getElem?_eq_some_iff.mp hi).1
  have hback : s.reverse[s.length - 1 - q]? = some i := by
    rw [List.getElem?_reverse (by omega)]
    have hq : s.length - 1 - (s.length - 1 - q) = q := by omega
    rw [hq, hi]
  unfold lastReturn
  cases hfind : s.reverse.findIdx? (·.code == .ret) with
  | none =>
    have hnone := List.findIdx?_eq_none_iff.mp hfind i (List.mem_of_getElem? hback)
    rw [hcode] at hnone
    cases hnone
  | some k =>
    obtain ⟨hk, hret, hfirst⟩ := List.findIdx?_eq_some_iff_getElem.mp hfind
    rw [List.length_reverse] at hk
    rw [List.getElem_reverse] at hret
    dsimp only
    refine ⟨Nat.le_of_not_lt fun hbehind => ?_, _, List.getElem?_eq_getElem (by omega), by simpa using hret⟩
    have hlate : s.length - 1 - q < k := by omega
    have hnot := hfirst _ hlate
    rw [(List.getElem?_eq_some_iff.mp hback).2, hcode] at hnot
    exact hnot rfl

end Stream

end SetterLoom
