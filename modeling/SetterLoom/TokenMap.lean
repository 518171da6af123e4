import SetterLoom.Token

/-!
# Maps keyed by tokens

A map from tokens, kept in ascending token order: listing a map lists its keys in declaration
order. The registry of types, the stored fields of an object and the table of known methods are
such maps.

* `get?_insert`: what a lookup finds after an insertion.
* `sorted_insert`: an insertion keeps the order, so `Sorted` holds of every map built from `empty`.
-/

namespace SetterLoom
set_option autoImplicit false

/-- A map from tokens to values, as its entries. -/
structure TokenMap (α : Type) where
  entries : List (Token × α) := []
  deriving DecidableEq, Repr

namespace TokenMap

variable {α : Type}

/-- The map without entries. -/
def empty : TokenMap α := ⟨[]⟩

instance : Inhabited (TokenMap α) := ⟨empty⟩

/-- The value of the first entry of a key. -/
def find (k : Token) : List (Token × α) → Option α
  | [] => none
  | (k', a) :: rest => if k = k' then some a else find k rest

/-- The value stored under a key. -/
def get? (m : TokenMap α) (k : Token) : Option α := find k m.entries

/-- Put an entry at its place, over the value the key had. -/
def place (k : Token) (a : α) : List (Token × α) → List (Token × α)
  | [] => [(k, a)]
  | (k', b) :: rest =>
    if k = k' then (k, a) :: rest
    else if k.value < k'.value then (k, a) :: (k', b) :: rest
    else (k', b) :: place k a rest

/-- Store a value under a key. -/
def insert (m : TokenMap α) (k : Token) (a : α) : TokenMap α := ⟨place k a m.entries⟩

/-- Store a value unless the key has one. -/
def insertNew (m : TokenMap α) (k : Token) (a : α) : TokenMap α :=
  if (m.get? k).isSome then m else m.insert k a

/-- The number of keys. -/
def size (m : TokenMap α) : Nat := m.entries.length

/-- The entries in ascending token order. -/
def toList (m : TokenMap α) : List (Token × α) := m.entries

/-- The values in ascending token order. -/
def values (m : TokenMap α) : List α := m.entries.map (·.2)

/-! ## Lookups -/

@[simp] theorem get?_empty (k : Token) : (empty : TokenMap α).get? k = none := rfl

theorem find_place (k q : Token) (a : α) (l : List (Token × α)) :
    find q (place k a l) = if q = k then some a else find q l := by
  induction l with
  | nil => simp [place, find]
  | cons e rest ih =>
    obtain ⟨k', b⟩ := e
    unfold place
    split
    · rename_i h
      subst h
      simp only [find]
      split <;> rfl
    · rename_i hne
      split
      · rfl
      · simp only [find, ih]
        split
        · rename_i hq
          subst hq
          rw [if_neg (fun h => hne h.symm)]
        · rfl

/-- After an insertion the key has the new value and every other key its old one. -/
theorem get?_insert (m : TokenMap α) (k q : Token) (a : α) :
    (m.insert k a).get? q = if q = k then some a else m.get? q :=
  find_place k q a m.entries

@[simp] theorem get?_insert_self (m : TokenMap α) (k : Token) (a : α) :
    (m.insert k a).get? k = some a := by
  simp [get?_insert]

theorem get?_insert_ne (m : TokenMap α) {k q : Token} (a : α) (h : q ≠ k) :
    (m.insert k a).get? q = m.get? q := by
  simp [get?_insert, h]

theorem get?_insertNew (m : TokenMap α) (k q : Token) (a : α) :
    (m.insertNew k a).get? q = if q = k then some ((m.get? k).getD a) else m.get? q := by
  unfold insertNew
  split
  · rename_i h
    obtain ⟨b, hb⟩ := Option.isSome_iff_exists.mp h
    split
    · rename_i hq
      subst hq
      simp [hb]
    · rfl
  · rename_i h
    rw [Option.not_isSome_iff_eq_none] at h
    rw [get?_insert, h]
    rfl

/-! ## Order -/

/-- The keys stand in strictly ascending order. -/
def Sorted (m : TokenMap α) : Prop :=
  m.entries.Pairwise fun e f => e.1.value < f.1.value

theorem sorted_empty : (empty : TokenMap α).Sorted := List.Pairwise.nil

theorem key_mem_place {k : Token} {a : α} {l : List (Token × α)} {e : Token × α}
    (h : e ∈ place k a l) : e.1 = k ∨ ∃ f ∈ l, e.1 = f.1 := by
  induction l with
  | nil =>
    rw [place, List.mem_singleton] at h
    exact .inl (by rw [h])
  | cons f rest ih =>
    obtain ⟨k', b⟩ := f
    unfold place at h
    split at h
    · rcases List.mem_cons.mp h with rfl | hm
      · exact .inl rfl
      · exact .inr ⟨e, List.mem_cons_of_mem _ hm, rfl⟩
    · split at h
      · rcases List.mem_cons.mp h with rfl | hm
        · exact .inl rfl
        · exact .inr ⟨e, hm, rfl⟩
      · rcases List.mem_cons.mp h with rfl | hm
        · exact .inr ⟨(k', b), List.mem_cons_self, rfl⟩
        · rcases ih hm with hk | ⟨g, hg, he⟩
          · exact .inl hk
          · exact .inr ⟨g, List.mem_cons_of_mem _ hg, he⟩

theorem pairwise_place (k : Token) (a : α) {l : List (Token × α)}
    (h : l.Pairwise fun e f => e.1.value < f.1.value) :
    (place k a l).Pairwise fun e f => e.1.value < f.1.value := by
  induction l with
  | nil => exact List.pairwise_singleton _ _
  | cons f rest ih =>
    obtain ⟨k', b⟩ := f
    rw [List.pairwise_cons] at h
    obtain ⟨hf, hrest⟩ := h
    unfold place
    split
    · rename_i hk
      subst hk
      exact List.pairwise_cons.mpr ⟨hf, hrest⟩
    · rename_i hne
      split
      · rename_i hlt
        refine List.pairwise_cons.mpr ⟨?_, List.pairwise_cons.mpr ⟨hf, hrest⟩⟩
        intro e he
        rcases List.mem_cons.mp he with rfl | hm
        · exact hlt
        · exact UInt32.lt_trans hlt (hf e hm)
      · rename_i hnlt
        refine List.pairwise_cons.mpr ⟨?_, ih hrest⟩
        intro e he
        rcases key_mem_place he with hk | ⟨g, hg, heq⟩
        · have hv : k.value ≠ k'.value := fun hv => hne (by cases k; cases k'; simp_all)
          have hle : k'.value ≤ k.value := UInt32.not_lt.mp hnlt
          have : k'.value < k.value := UInt32.lt_of_le_of_ne hle fun h => hv h.symm
          simpa [hk] using this
        · simpa [heq] using hf g hg

/-- An insertion keeps the keys in order. -/
theorem sorted_insert {m : TokenMap α} (k : Token) (a : α) (h : m.Sorted) :
    (m.insert k a).Sorted :=
  pairwise_place k a h

end TokenMap

end SetterLoom
