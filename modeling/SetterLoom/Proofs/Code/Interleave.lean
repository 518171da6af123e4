import SetterLoom.Proofs.Code.Labels

/-!
# Putting code in front of many positions at once

`interleave blocks s` is the stream `s` with the block of each position in front of it, the end of the
stream being a position too. Insertions made one after another, none of them behind an earlier one, give
such a stream, and so all positions in them can be read as positions of the unedited stream.

* `interleave_eq_flatMap`: the stream as a list of blocks and instructions.
* `insertAt_interleave`: one more insertion, in front of all that were made, puts its code in front of
  the block of its position.
* `getElem?_interleave_block`, `getElem?_interleave_instruction`: where the code of a block and the
  instructions of the unedited stream stand.
* `lastPosition?_interleave`: a label of the unedited stream still goes to its instruction, and not to
  the block in front of it.
-/

namespace SetterLoom.Stream
set_option autoImplicit false

/-- A stream whose first position is called `start`, with the block of each position in front of it. -/
def interleaveFrom (blocks : Nat → List Instruction) : Nat → Stream → Stream
  | start, [] => blocks start
  | start, i :: rest => blocks start ++ i :: interleaveFrom blocks (start + 1) rest

/-- The stream with the block of each position in front of it. -/
def interleave (blocks : Nat → List Instruction) (s : Stream) : Stream := interleaveFrom blocks 0 s

/-- Where the block of a position starts. -/
def blockStart (blocks : Nat → List Instruction) : Nat → Nat
  | 0 => 0
  | p + 1 => blockStart blocks p + (blocks p).length + 1

/-- Where the instruction of a position stands: behind its block. -/
def placeOf (blocks : Nat → List Instruction) (p : Nat) : Nat :=
  blockStart blocks p + (blocks p).length

/-- The stream is the code of all positions in order, the instruction of a position behind its block. -/
theorem interleave_eq_flatMap (blocks : Nat → List Instruction) (s : Stream) :
    interleave blocks s
      = (List.range (s.length + 1)).flatMap fun p => blocks p ++ s[p]?.toList := by
  -- the recursion counts from `start`, so the induction has to be over every rest of the code
  have hfrom : ∀ (rest : Stream) (start : Nat), interleaveFrom blocks start rest
      = (List.range (rest.length + 1)).flatMap
        fun p => blocks (start + p) ++ rest[p]?.toList := by
    intro rest
    induction rest with
    | nil =>
      intro start
      simp [interleaveFrom]
    | cons i rest ih =>
      intro start
      have hrange : List.range ((i :: rest).length + 1)
          = 0 :: (List.range (rest.length + 1)).map Nat.succ := by
        rw [List.length_cons, List.range_succ_eq_map]
      rw [interleaveFrom, ih (start + 1), hrange, List.flatMap_cons, List.flatMap_map,
        List.getElem?_cons_zero, Option.toList_some, List.append_assoc]
      simp only [Nat.add_zero, Nat.succ_eq_add_one, List.getElem?_cons_succ, Nat.add_assoc,
        Nat.add_comm 1, List.singleton_append]
  have hall := hfrom s 0
  simp only [Nat.zero_add] at hall
  exact hall

/-! ## Insertions -/

theorem interleaveFrom_of_empty {blocks : Nat → List Instruction} (start : Nat) (s : Stream)
    (h : ∀ p, blocks p = []) : interleaveFrom blocks start s = s := by
  induction s generalizing start with
  | nil => exact h start
  | cons i rest ih => rw [interleaveFrom, h start, ih (start + 1), List.nil_append]

theorem interleave_of_empty (s : Stream) : interleave (fun _ => []) s = s :=
  interleaveFrom_of_empty 0 s fun _ => rfl

theorem interleaveFrom_congr {blocks blocks' : Nat → List Instruction} {start : Nat} {s : Stream}
    (h : ∀ p, start ≤ p → p ≤ start + s.length → blocks p = blocks' p) :
    interleaveFrom blocks start s = interleaveFrom blocks' start s := by
  induction s generalizing start with
  | nil => exact h start (Nat.le_refl _) (Nat.le_add_right _ _)
  | cons i rest ih =>
    have hstart : blocks start = blocks' start := h start (Nat.le_refl _) (Nat.le_add_right _ _)
    have hrest : interleaveFrom blocks (start + 1) rest = interleaveFrom blocks' (start + 1) rest :=
      ih fun p hp hq => h p (by omega) (by rw [List.length_cons]; omega)
    rw [interleaveFrom, interleaveFrom, hstart, hrest]

/-- The blocks with more code in front of the block of one position. -/
def putBefore (blocks : Nat → List Instruction) (position : Nat) (code : List Instruction) (p : Nat) :
    List Instruction :=
  if p = position then code ++ blocks p else blocks p

private theorem take_drop_interleaveFrom {blocks : Nat → List Instruction}
    (code : List Instruction) (start : Nat) {position : Nat} {s : Stream}
    (hlow : ∀ p, start ≤ p → p < start + position → blocks p = []) (hp : position ≤ s.length) :
    (interleaveFrom blocks start s).take position ++ code
        ++ (interleaveFrom blocks start s).drop position
      = interleaveFrom (putBefore blocks (start + position) code) start s := by
  -- by induction on the position: in front of it there is code to step over, but no block
  induction position generalizing start s with
  | zero =>
    have hrest (t : Stream) (q : Nat) (hq : start < q) :
        interleaveFrom (putBefore blocks start code) q t = interleaveFrom blocks q t :=
      interleaveFrom_congr fun p hp _ => if_neg (by omega)
    cases s with
    | nil => simp [interleaveFrom, putBefore]
    | cons i rest =>
      simp only [List.take_zero, List.drop_zero, List.nil_append, Nat.add_zero, interleaveFrom]
      rw [hrest rest (start + 1) (Nat.lt_succ_self start), putBefore, if_pos rfl,
        List.append_assoc]
  | succ position ih =>
    cases s with
    | nil => simp at hp
    | cons i rest =>
      have hstart : blocks start = [] := hlow start (Nat.le_refl _) (by omega)
      have hstart' : putBefore blocks (start + (position + 1)) code start = [] := by
        rw [putBefore, if_neg (by omega), hstart]
      have hstep := ih (start + 1) (s := rest) (fun p h₁ h₂ => hlow p (by omega) (by omega))
        (by simpa using hp)
      rw [interleaveFrom, interleaveFrom, hstart, hstart', List.nil_append, List.nil_append,
        List.take_succ_cons, List.drop_succ_cons, List.cons_append, List.cons_append, hstep]
      have hpos : start + 1 + position = start + (position + 1) := by omega
      rw [hpos]

/-- An insertion in front of all earlier ones puts its code in front of the block of its position. -/
theorem insertAt_interleave {blocks : Nat → List Instruction} {position : Nat} {s : Stream}
    (code : List Instruction) (hlow : ∀ p, p < position → blocks p = [])
    (hp : position ≤ s.length) :
    (interleave blocks s).take position ++ code ++ (interleave blocks s).drop position
      = interleave (putBefore blocks position code) s := by
  have h := take_drop_interleaveFrom code 0 (s := s)
    (fun p _ h => hlow p (by omega)) hp
  rwa [Nat.zero_add] at h

/-! ## Positions -/

theorem length_interleaveFrom_le (blocks : Nat → List Instruction) (start : Nat) (s : Stream) :
    s.length ≤ (interleaveFrom blocks start s).length := by
  induction s generalizing start with
  | nil => exact Nat.zero_le _
  | cons i rest ih =>
    have := ih (start + 1)
    simp only [interleaveFrom, List.length_append, List.length_cons]
    omega

theorem length_le_interleave (blocks : Nat → List Instruction) (s : Stream) :
    s.length ≤ (interleave blocks s).length :=
  length_interleaveFrom_le blocks 0 s

theorem drop_interleave (blocks : Nat → List Instruction) (s : Stream) {p : Nat}
    (hp : p ≤ s.length) :
    (interleave blocks s).drop (blockStart blocks p) = interleaveFrom blocks p (s.drop p) := by
  induction p with
  | zero => rfl
  | succ p ih =>
    have hlt : p < s.length := by omega
    have hcons : s.drop p = s[p] :: s.drop (p + 1) := List.drop_eq_getElem_cons hlt
    have hstart : blockStart blocks (p + 1) = blockStart blocks p + ((blocks p).length + 1) := rfl
    rw [hstart, ← List.drop_drop, ih (by omega), hcons, interleaveFrom, ← List.drop_drop,
      List.drop_left, List.drop_one, List.tail_cons]

/-- The code of a block stands behind the block's start. -/
theorem getElem?_interleave_block (blocks : Nat → List Instruction) (s : Stream) {p k : Nat}
    (hp : p ≤ s.length) (hk : k < (blocks p).length) :
    (interleave blocks s)[blockStart blocks p + k]? = (blocks p)[k]? := by
  rw [← List.getElem?_drop, drop_interleave blocks s hp]
  cases s.drop p with
  | nil => rfl
  | cons i rest => rw [interleaveFrom, List.getElem?_append_left hk]

theorem getElem?_interleave_instruction (blocks : Nat → List Instruction) (s : Stream) {p : Nat}
    (hp : p ≤ s.length) : (interleave blocks s)[placeOf blocks p]? = s[p]? := by
  have hs : s[p]? = (s.drop p)[0]? := by rw [List.getElem?_drop, Nat.add_zero]
  rw [placeOf, ← List.getElem?_drop, drop_interleave blocks s hp, hs]
  cases s.drop p with
  | nil => simp [interleaveFrom]
  | cons i rest => rw [interleaveFrom, List.getElem?_append_right (Nat.le_refl _)]; simp

theorem blockStart_le_placeOf (blocks : Nat → List Instruction) (p : Nat) :
    blockStart blocks p ≤ placeOf blocks p :=
  Nat.le_add_right _ _

theorem placeOf_lt_blockStart (blocks : Nat → List Instruction) {p q : Nat} (h : p < q) :
    placeOf blocks p < blockStart blocks q := by
  induction q with
  | zero => omega
  | succ q ih =>
    have hq : blockStart blocks (q + 1) = placeOf blocks q + 1 := rfl
    rcases Nat.lt_succ_iff_lt_or_eq.mp h with hlt | rfl
    · have := ih hlt
      have := blockStart_le_placeOf blocks q
      omega
    · omega

theorem position_cases (blocks : Nat → List Instruction) (s : Stream) {x : Nat}
    (hx : x < (interleave blocks s).length) :
    ∃ p, p ≤ s.length ∧ ((∃ k, k < (blocks p).length ∧ x = blockStart blocks p + k)
      ∨ (p < s.length ∧ x = placeOf blocks p)) := by
  have hlen : (interleave blocks s).length = placeOf blocks s.length := by
    have h := congrArg List.length (drop_interleave blocks s (Nat.le_refl s.length))
    rw [List.drop_length, interleaveFrom, List.length_drop] at h
    have hle : blockStart blocks s.length ≤ (interleave blocks s).length := by
      rcases Nat.lt_or_ge (interleave blocks s).length (blockStart blocks s.length) with hlt | hge
      · cases hs : s.length with
        | zero => rw [hs] at hlt; exact absurd hlt (Nat.not_lt_zero _)
        | succ n =>
          have hplace := getElem?_interleave_instruction blocks s (p := n) (by omega)
          rw [List.getElem?_eq_getElem (by omega : n < s.length)] at hplace
          have := (List.getElem?_eq_some_iff.mp hplace).1
          have : blockStart blocks s.length = placeOf blocks n + 1 := by rw [hs]; rfl
          omega
      · exact hge
    rw [placeOf]
    omega
  -- by induction on the position that `x` lies in front of: `x` is further in front, at the
  -- place of that position's instruction, or in its block
  have hbelow : ∀ n, x < placeOf blocks n → ∃ p, p ≤ n ∧
      ((∃ k, k < (blocks p).length ∧ x = blockStart blocks p + k)
        ∨ (p < n ∧ x = placeOf blocks p)) := by
    intro n
    induction n with
    | zero => exact fun h => ⟨0, Nat.le_refl _, .inl ⟨x, by simpa [placeOf, blockStart] using h,
        by simp [blockStart]⟩⟩
    | succ n ih =>
      intro h
      have hstart : blockStart blocks (n + 1) = placeOf blocks n + 1 := rfl
      rcases Nat.lt_trichotomy x (placeOf blocks n) with hlt | heq | hgt
      · obtain ⟨p, hp, hblock | ⟨hpn, hplace⟩⟩ := ih hlt
        · exact ⟨p, by omega, .inl hblock⟩
        · exact ⟨p, by omega, .inr ⟨by omega, hplace⟩⟩
      · exact ⟨n, by omega, .inr ⟨Nat.lt_succ_self n, heq⟩⟩
      · refine ⟨n + 1, Nat.le_refl _, .inl ⟨x - blockStart blocks (n + 1), ?_, ?_⟩⟩
        · rw [placeOf] at h
          omega
        · omega
  obtain ⟨p, hp, hcase⟩ := hbelow s.length (hlen ▸ hx)
  exact ⟨p, hp, hcase⟩

/-! ## Labels -/

/-- A label that no block carries goes to the instruction it went to before. -/
theorem lastPosition?_interleave {blocks : Nat → List Instruction} {s : Stream} {l : Label}
    (hfresh : ∀ p, p ≤ s.length → ∀ i ∈ blocks p, i.label ≠ l) :
    (interleave blocks s).lastPosition? l = (s.lastPosition? l).map (placeOf blocks) := by
  -- an instruction of the interleaved stream that carries the label is one of the stream
  have hback {x : Nat} {i : Instruction} (hx : (interleave blocks s)[x]? = some i)
      (hl : i.label = l) : ∃ p, x = placeOf blocks p ∧ s[p]? = some i := by
    obtain ⟨p, hp, ⟨k, hk, rfl⟩ | ⟨hlt, rfl⟩⟩ :=
      position_cases blocks s (List.getElem?_eq_some_iff.mp hx).1
    · rw [getElem?_interleave_block blocks s hp hk] at hx
      exact absurd hl (hfresh p hp i (List.mem_of_getElem? hx))
    · rw [getElem?_interleave_instruction blocks s hp] at hx
      exact ⟨p, rfl, hx⟩
  cases h : s.lastPosition? l with
  | none =>
    rw [Option.map_none, lastPosition?_eq_none]
    intro i hi hl
    obtain ⟨x, hx⟩ := List.mem_iff_getElem?.mp hi
    obtain ⟨p, -, hp⟩ := hback hx hl
    exact lastPosition?_eq_none.mp h i (List.mem_of_getElem? hp) hl
  | some p =>
    obtain ⟨⟨i, hi, hl⟩, hlast⟩ := lastPosition?_eq_some.mp h
    have hlt : p < s.length := (List.getElem?_eq_some_iff.mp hi).1
    rw [Option.map_some, lastPosition?_eq_some]
    refine ⟨⟨i, ?_, hl⟩, ?_⟩
    · rw [getElem?_interleave_instruction blocks s (Nat.le_of_lt hlt), hi]
    · intro x j hx hj hjl
      obtain ⟨q, rfl, hq⟩ := hback hj hjl
      rcases Nat.lt_trichotomy p q with hpq | rfl | hqp
      · exact hlast q j hpq hq hjl
      · exact absurd hx (Nat.lt_irrefl _)
      · have := placeOf_lt_blockStart blocks hqp
        have := blockStart_le_placeOf blocks p
        omega

end SetterLoom.Stream
