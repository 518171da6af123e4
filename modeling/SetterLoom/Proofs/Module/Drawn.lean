import Mathlib.Data.List.Nodup
import SetterLoom.Module.Basic

/-!
# Tokens that are drawn

Every table counts its rows, and a token keeps the low three bytes of a row. So the tokens of a table come in
ascending order as long as there are fewer rows than three bytes can tell apart. Behind that they start again
with the row 0, which no entry has.

* `Token.toNat_ofRow`: the number that a token is.
* `Module.getElem?_drawAll`: the tokens that are drawn in a row.
* `Module.inOrder_drawAll_iff`: when they differ and ascend.
-/

namespace SetterLoom
set_option autoImplicit false

/-- The number of rows that a token can tell apart. -/
def Token.rowLimit : Nat := 0x1000000

theorem Token.rowLimit_pos : 0 < rowLimit := by decide

namespace Table

theorem code_injective {t u : Table} (h : t.code.toNat = u.code.toNat) : t = u := by
  cases t <;> cases u <;> first | rfl | exact absurd h (by decide)

end Table

namespace Token

variable {t u : Table} {row row' : UInt32}

theorem toNat_rowMask (row : UInt32) : (row &&& rowMask).toNat = row.toNat % rowLimit := by
  rw [UInt32.toNat_and]
  exact Nat.and_two_pow_sub_one_eq_mod row.toNat 24

theorem toNat_ofRow (t : Table) (row : UInt32) :
    (ofRow t row).value.toNat = t.code.toNat * rowLimit + row.toNat % rowLimit := by
  have hlt : (row &&& rowMask).toNat < 2 ^ 24 := by
    rw [toNat_rowMask]
    exact Nat.mod_lt _ rowLimit_pos
  have hshift : (t.code <<< 24).toNat = t.code.toNat <<< 24 := by
    cases t <;> decide
  rw [ofRow, UInt32.toNat_or, hshift, ← Nat.shiftLeft_add_eq_or_of_lt hlt, Nat.shiftLeft_eq, toNat_rowMask]
  rfl

theorem row_ofRow_eq_zero_iff : (ofRow t row).row = 0 ↔ row.toNat % rowLimit = 0 := by
  rw [row_ofRow, ← UInt32.toNat_inj, toNat_rowMask]
  rfl

theorem ofRow_eq_iff : ofRow t row = ofRow u row' ↔ t = u ∧ row.toNat % rowLimit = row'.toNat % rowLimit := by
  constructor
  · intro h
    have hvalue := congrArg (·.value.toNat) h
    simp only [toNat_ofRow] at hvalue
    have hrow : row.toNat % rowLimit < rowLimit := Nat.mod_lt _ rowLimit_pos
    have hrow' : row'.toNat % rowLimit < rowLimit := Nat.mod_lt _ rowLimit_pos
    have hcode : t.code.toNat = u.code.toNat := by
      simp only [rowLimit] at hvalue hrow hrow'
      omega
    exact ⟨Table.code_injective hcode, by rw [hcode] at hvalue; omega⟩
  · rintro ⟨rfl, hrow⟩
    have hvalue : (ofRow t row).value.toNat = (ofRow t row').value.toNat := by
      rw [toNat_ofRow, toNat_ofRow, hrow]
    exact congrArg Token.mk (UInt32.toNat_inj.mp hvalue)

end Token

namespace Module

/-- Draw tokens of some tables, one after the other. -/
def drawAll : List Table → Module → List Token × Module
  | [], m => ([], m)
  | t :: ts, m =>
    let (k, m) := m.drawToken t
    let (ks, m) := drawAll ts m
    (k :: ks, m)

/-- The number of the row that a table counted last, as far as a token tells it. -/
def lastRow (m : Module) (t : Table) : Nat := (m.rows.get t).toNat % Token.rowLimit

theorem length_drawAll (ts : List Table) (m : Module) : (m.drawAll ts).1.length = ts.length := by
  induction ts generalizing m with
  | nil => rfl
  | cons t ts ih => exact congrArg (· + 1) (ih _)

theorem lastRow_drawToken (m : Module) (u t : Table) :
    (m.drawToken u).2.lastRow t = if t = u then (m.lastRow t + 1) % Token.rowLimit else m.lastRow t := by
  simp only [lastRow, drawToken, RowCounts.get_bump, Token.rowLimit]
  split
  · simp only [UInt32.toNat_add, UInt32.reduceToNat]
    omega
  · rfl

private theorem lastRow_drawn (m : Module) (u t : Table) (k : Nat) :
    ((m.drawToken u).2.lastRow t + k) % Token.rowLimit
      = (m.lastRow t + (k + if u == t then 1 else 0)) % Token.rowLimit := by
  rw [lastRow_drawToken]
  by_cases htu : t = u
  · rw [if_pos htu, if_pos (beq_iff_eq.mpr htu.symm)]
    simp only [Token.rowLimit]
    omega
  · rw [if_neg htu, if_neg fun h => htu (beq_iff_eq.mp h).symm]
    rfl

theorem drawAll_rows (ts : List Table) (m : Module) : ∃ rows, (m.drawAll ts).2 = { m with rows } := by
  induction ts generalizing m with
  | nil => exact ⟨m.rows, rfl⟩
  | cons t ts ih => exact ih (m.drawToken t).2

theorem lastRow_drawAll (ts : List Table) (m : Module) (t : Table) :
    (m.drawAll ts).2.lastRow t = (m.lastRow t + ts.count t) % Token.rowLimit := by
  induction ts generalizing m with
  | nil => exact (Nat.mod_mod _ _).symm
  | cons u ts ih =>
    rw [drawAll, ih, lastRow_drawn, List.count_cons]

/-- A token has the table that was asked for, and the next row of that table. -/
theorem getElem?_drawAll (ts : List Table) (m : Module) (i : Nat) {t : Table} (hi : ts[i]? = some t) :
    ∃ row, (m.drawAll ts).1[i]? = some (.ofRow t row)
      ∧ row.toNat % Token.rowLimit = (m.lastRow t + (ts.take i).count t + 1) % Token.rowLimit := by
  induction ts generalizing m i with
  | nil => cases hi
  | cons u ts ih =>
    -- the token at the place is the one just drawn, or one of those
    -- drawn behind it from the next row on
    cases i with
    | zero =>
      obtain rfl := Option.some.inj hi
      refine ⟨m.rows.get u + 1, rfl, ?_⟩
      simp only [lastRow, UInt32.toNat_add, Token.rowLimit, UInt32.reduceToNat, List.take_zero, List.count_nil]
      omega
    | succ i =>
      obtain ⟨row, hrow, hmod⟩ := ih (m.drawToken u).2 i hi
      refine ⟨row, hrow, hmod.trans ?_⟩
      rw [Nat.add_assoc, lastRow_drawn, List.take_succ_cons, List.count_cons, Nat.add_right_comm ((ts.take i).count t),
        ← Nat.add_assoc]

/-! ## Order -/

section Counting

variable {ts : List Table} {t : Table} {i j : Nat}

theorem count_take_lt (hi : ts[i]? = some t) (hij : i < j) : (ts.take i).count t < (ts.take j).count t := by
  have hnext : (ts.take (i + 1)).count t = (ts.take i).count t + 1 := by
    rw [List.take_add_one, hi, List.count_append]
    simp
  have hprefix : (ts.take (i + 1)).count t ≤ (ts.take j).count t :=
    (List.take_prefix_take_left hij).sublist.count_le t
  omega

theorem count_take_lt_count (hi : ts[i]? = some t) : (ts.take i).count t < ts.count t := by
  have hlt : i < ts.length := (List.getElem?_eq_some_iff.mp hi).1
  have hcount := count_take_lt hi hlt
  rwa [List.take_length] at hcount

theorem exists_count_take {c : Nat} (hc : c < ts.count t) : ∃ i, ts[i]? = some t ∧ (ts.take i).count t = c := by
  induction ts generalizing c with
  | nil => cases hc
  | cons u ts ih =>
    rw [List.count_cons] at hc
    by_cases hut : u = t
    · cases c with
      | zero => exact ⟨0, congrArg some hut, rfl⟩
      | succ c =>
        rw [if_pos (beq_iff_eq.mpr hut)] at hc
        obtain ⟨i, hi, hcount⟩ := ih (Nat.lt_of_succ_lt_succ hc)
        refine ⟨i + 1, hi, ?_⟩
        rw [List.take_succ_cons, List.count_cons, hcount, if_pos (beq_iff_eq.mpr hut)]
    · rw [if_neg fun h => hut (beq_iff_eq.mp h)] at hc
      obtain ⟨i, hi, hcount⟩ := ih hc
      refine ⟨i + 1, hi, ?_⟩
      rw [List.take_succ_cons, List.count_cons, hcount, if_neg fun h => hut (beq_iff_eq.mp h)]
      rfl

end Counting

/-- The tokens are of the given tables, none has the row 0, no two are the same, and those of a table ascend. -/
structure InOrder (ts : List Table) (tokens : List Token) : Prop where
  length : tokens.length = ts.length
  tables : ∀ (i : Nat) (t : Table) (k : Token), ts[i]? = some t → tokens[i]? = some k → k.code = t.code
  rows : ∀ k ∈ tokens, k.row ≠ 0
  distinct : tokens.Nodup
  ascending : ∀ (i j : Nat) (t : Table) (k l : Token), i < j → ts[i]? = some t → ts[j]? = some t →
    tokens[i]? = some k → tokens[j]? = some l → k.value < l.value

section Drawing

variable {ts : List Table} {m : Module} {t : Table} {i : Nat} {k : Token}

theorem exists_of_getElem?_drawAll (hk : (m.drawAll ts).1[i]? = some k) :
    ∃ t row, ts[i]? = some t ∧ k = .ofRow t row
      ∧ row.toNat % Token.rowLimit = (m.lastRow t + (ts.take i).count t + 1) % Token.rowLimit := by
  have hlt : i < ts.length := by
    rw [← length_drawAll ts m]
    exact (List.getElem?_eq_some_iff.mp hk).1
  obtain ⟨row, hrow, hmod⟩ := getElem?_drawAll ts m i (List.getElem?_eq_getElem hlt)
  exact ⟨ts[i], row, List.getElem?_eq_getElem hlt, Option.some.inj (hk.symm.trans hrow), hmod⟩

/-- The tokens that are drawn are in order as long as no table runs out of rows. -/
theorem inOrder_drawAll (hfit : ∀ t, m.lastRow t + ts.count t < Token.rowLimit) : InOrder ts (m.drawAll ts).1 := by
  -- the row at a place is not reduced
  have hdrawn : ∀ {i : Nat} {k : Token}, (m.drawAll ts).1[i]? = some k → ∃ t row, ts[i]? = some t
      ∧ k = .ofRow t row ∧ row.toNat % Token.rowLimit = m.lastRow t + (ts.take i).count t + 1 := by
    intro i k hk
    obtain ⟨t, row, hi, hrow, hmod⟩ := exists_of_getElem?_drawAll hk
    have hcount := count_take_lt_count hi
    have hroom := hfit t
    exact ⟨t, row, hi, hrow, hmod.trans (Nat.mod_eq_of_lt (by omega))⟩
  refine ⟨length_drawAll ts m, ?_, ?_, ?_, ?_⟩
  · intro i t k hi hk
    obtain ⟨u, row, hu, rfl, -⟩ := hdrawn hk
    obtain rfl := Option.some.inj (hi.symm.trans hu)
    exact Token.code_ofRow _ _
  · intro k hk hzero
    obtain ⟨i, hk⟩ := List.mem_iff_getElem?.mp hk
    obtain ⟨t, row, -, rfl, hmod⟩ := hdrawn hk
    rw [Token.row_ofRow_eq_zero_iff] at hzero
    omega
  · rw [List.nodup_iff_getElem?_ne_getElem?]
    intro i j hij hj heq
    obtain ⟨l, hl⟩ : ∃ l, (m.drawAll ts).1[j]? = some l := ⟨_, List.getElem?_eq_getElem hj⟩
    obtain ⟨t, row, hi, hk, hmod⟩ := hdrawn (heq.trans hl)
    obtain ⟨u, row', -, hk', hmod'⟩ := hdrawn hl
    obtain ⟨rfl, hrows⟩ := Token.ofRow_eq_iff.mp (hk.symm.trans hk')
    have hcount := count_take_lt hi hij
    omega
  · intro i j t k l hij hi hj hk hl
    obtain ⟨u, row, hu, rfl, hmod⟩ := hdrawn hk
    obtain ⟨u', row', hu', rfl, hmod'⟩ := hdrawn hl
    obtain rfl := Option.some.inj (hi.symm.trans hu)
    obtain rfl := Option.some.inj (hj.symm.trans hu')
    have hcount := count_take_lt hi hij
    rw [UInt32.lt_iff_toNat_lt, Token.toNat_ofRow, Token.toNat_ofRow]
    omega

theorem exists_row_zero (hfull : Token.rowLimit ≤ m.lastRow t + ts.count t) : ∃ k ∈ (m.drawAll ts).1, k.row = 0 := by
  have hlast : m.lastRow t < Token.rowLimit := Nat.mod_lt _ Token.rowLimit_pos
  have hlt : Token.rowLimit - m.lastRow t - 1 < ts.count t := by omega
  obtain ⟨i, hi, hcount⟩ := exists_count_take hlt
  obtain ⟨row, hrow, hmod⟩ := getElem?_drawAll ts m i hi
  refine ⟨_, List.mem_of_getElem? hrow, Token.row_ofRow_eq_zero_iff.mpr (hmod.trans ?_)⟩
  rw [hcount, show m.lastRow t + (Token.rowLimit - m.lastRow t - 1) + 1 = Token.rowLimit by omega, Nat.mod_self]

/-- Tokens that are drawn one after the other are in order exactly if no table runs out of rows. -/
theorem inOrder_drawAll_iff : InOrder ts (m.drawAll ts).1 ↔ ∀ t, m.lastRow t + ts.count t < Token.rowLimit := by
  refine ⟨fun h t => Nat.lt_of_not_le fun hfull => ?_, inOrder_drawAll⟩
  obtain ⟨k, hk, hzero⟩ := exists_row_zero hfull
  exact h.rows k hk hzero

end Drawing

end Module

end SetterLoom
