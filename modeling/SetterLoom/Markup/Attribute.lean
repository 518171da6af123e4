/-!
# Attributes of an element

Behind the name of an element stand its attributes: a key, an equals sign and a quoted value, with
blanks between them where the author likes. A key may be any text without blanks and equals signs,
and no key may come twice. Reading goes on up to the first attribute that is not of this form.

* `keys_fresh`: the keys that are read are new and differ from each other.
-/

namespace SetterLoom.Markup
set_option autoImplicit false

/-- The characters that separate the parts of a tag. -/
def isBlank (c : Char) : Bool := c == ' ' || c == '\t' || c == '\r' || c == '\n'

/-- An attribute, with its value as it is written between the quotes. -/
structure Attribute where
  key : List Char
  value : List Char
  deriving DecidableEq, Repr

/-- The attributes of an element up to the first malformed one. -/
structure Attributes where
  list : List Attribute
  wellFormed : Bool
  deriving DecidableEq, Repr

/-- A key goes on up to an equals sign or a blank. -/
def inKey (c : Char) : Bool := !(c == '=' || isBlank c)

/-- The first attribute of a text that starts with its key, and the text behind it. -/
def attribute? : List Char → Option (Attribute × List Char)
  | [] => none
  | c :: cs =>
    match (cs.dropWhile inKey).dropWhile isBlank with
    | '=' :: afterKey =>
      match afterKey.dropWhile isBlank with
      | [] => none
      | quote :: text =>
        if quote == '"' || quote == '\'' then
          match text.dropWhile (· != quote) with
          | [] => none
          | _ :: rest => some (⟨c :: cs.takeWhile inKey, text.takeWhile (· != quote)⟩, rest)
        else none
    | _ => none

private theorem length_dropWhile_le {α : Type} (p : α → Bool) (l : List α) :
    (l.dropWhile p).length ≤ l.length :=
  (List.dropWhile_sublist p).length_le

/-- What follows an attribute is shorter than the text it was read from. -/
theorem length_rest_lt {text rest : List Char} {a : Attribute}
    (h : attribute? text = some (a, rest)) : rest.length < text.length := by
  cases text with
  | nil => simp [attribute?] at h
  | cons c cs =>
    simp only [attribute?] at h
    split at h
    · rename_i afterKey hk
      split at h
      · simp at h
      · rename_i quote text ht
        split at h
        · split at h
          · simp at h
          · rename_i q rest' hr
            simp only [Option.some.injEq, Prod.mk.injEq] at h
            obtain ⟨-, rfl⟩ := h
            have h1 := length_dropWhile_le inKey cs
            have h2 := length_dropWhile_le isBlank (cs.dropWhile inKey)
            have h3 := length_dropWhile_le isBlank afterKey
            have h4 := length_dropWhile_le (· != quote) text
            rw [hk] at h2
            rw [ht] at h3
            rw [hr] at h4
            simp only [List.length_cons] at h2 h3 h4 ⊢
            omega
        · simp at h
    · simp at h

/-- The attributes of a text, none of which may have one of the given keys. -/
def readAttributes (keys : List (List Char)) (text : List Char) : Attributes :=
  match _ : text.dropWhile isBlank with
  | [] => ⟨[], true⟩
  | c :: cs =>
    match _ : attribute? (c :: cs) with
    | none => ⟨[], false⟩
    | some (a, rest) =>
      if keys.contains a.key then ⟨[], false⟩
      else
        let others := readAttributes (a.key :: keys) rest
        ⟨a :: others.list, others.wellFormed⟩
termination_by text.length
decreasing_by
  rename_i htext h _
  have h1 := length_rest_lt h
  have h2 := length_dropWhile_le isBlank text
  rw [htext] at h2
  omega

/-- The keys that are read are none of the given ones, and no two are the same. -/
theorem keys_fresh (keys : List (List Char)) (text : List Char) :
    ((readAttributes keys text).list.map (·.key)).Nodup
      ∧ ∀ k ∈ (readAttributes keys text).list.map (·.key), k ∉ keys := by
  induction keys, text using readAttributes.induct with
  | case1 keys text htext =>
    rw [readAttributes]
    split
    · simp
    · rename_i heq
      rw [htext] at heq
      exact absurd heq (by simp)
  | case2 keys text c cs htext h =>
    rw [readAttributes]
    split
    · simp
    · rename_i c' cs' heq
      rw [htext] at heq
      cases heq
      split
      · simp
      · rename_i hsome
        rw [h] at hsome
        exact absurd hsome (by simp)
  | case3 keys text c cs htext a rest h hdup =>
    rw [readAttributes]
    split
    · simp
    · rename_i c' cs' heq
      rw [htext] at heq
      cases heq
      split
      · simp
      · rename_i hsome
        rw [h] at hsome
        cases hsome
        rw [if_pos hdup]
        simp
  | case4 keys text c cs htext a rest h hdup ih =>
    rw [readAttributes]
    split
    · simp
    · rename_i c' cs' heq
      rw [htext] at heq
      cases heq
      split
      · simp
      · rename_i hsome
        rw [h] at hsome
        cases hsome
        rw [if_neg hdup]
        obtain ⟨hnodup, hfresh⟩ := ih
        have hkey : a.key ∉ keys := by simpa using hdup
        refine ⟨?_, ?_⟩
        · simp only [List.map_cons, List.nodup_cons]
          exact ⟨fun hm => hfresh _ hm List.mem_cons_self, hnodup⟩
        · intro k hk
          simp only [List.map_cons, List.mem_cons] at hk
          rcases hk with rfl | hk
          · exact hkey
          · exact fun hin => hfresh k hk (List.mem_cons_of_mem _ hin)

end SetterLoom.Markup
