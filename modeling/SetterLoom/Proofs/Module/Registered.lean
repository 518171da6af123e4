import SetterLoom.Module.Basic

/-!
# Registered types

Types are registered in any order, under any tokens and names, and a token may be taken again. By token
the registry then has the type that was registered last, and it lists its types in token order, each one
once. By name it has whatever stands now under the token with which the name came up first. That is the
first declared type of the name as long as tokens keep their names and types of one name are registered in
the order of their declaration; without that it may be a later one, or a type of another name.

* `get?_registerAll`, `find?_registerAll`: the two lookups after any number of registrations.
* `find?_eq_some_iff_isFirst`: what a lookup by name finds if types are registered in declaration order.
* `registered_lookups`: all of it, and the listings.
-/

namespace SetterLoom
set_option autoImplicit false

/-! ## Maps in order -/

namespace TokenMap

variable {α : Type} {k : Token} {a : α}

theorem mem_of_find {l : List (Token × α)} (h : find k l = some a) : (k, a) ∈ l := by
  induction l with
  | nil => cases h
  | cons e rest ih =>
    obtain ⟨k', b⟩ := e
    rw [find] at h
    split at h
    · rename_i hk
      obtain rfl := Option.some.inj h
      exact hk ▸ List.mem_cons_self
    · exact List.mem_cons_of_mem _ (ih h)

theorem mem_toList_iff {m : TokenMap α} (h : m.Sorted) : (k, a) ∈ m.toList ↔ m.get? k = some a := by
  refine ⟨fun hmem => ?_, mem_of_find⟩
  obtain ⟨l⟩ := m
  have hl : l.Pairwise fun e f => e.1.value < f.1.value := h
  show find k l = some a
  replace hmem : (k, a) ∈ l := hmem
  clear h
  induction l with
  | nil => cases hmem
  | cons e rest ih =>
    obtain ⟨k', b⟩ := e
    obtain ⟨hhead, hrest⟩ := List.pairwise_cons.mp hl
    rw [find]
    rcases List.mem_cons.mp hmem with heq | hmem
    · obtain ⟨rfl, rfl⟩ := Prod.mk.inj heq
      exact if_pos rfl
    · have hlt : k'.value < k.value := hhead (k, a) hmem
      rw [if_neg fun hk => absurd (hk ▸ hlt) (UInt32.lt_irrefl _)]
      exact ih hrest hmem

end TokenMap

theorem findSome?_of_candidates {α β : Type} {p : α → Bool} {f : α → Option β} {l : List α}
    (h : ∀ x ∈ l, p x = true → (f x).isSome) :
    (l.findSome? fun x => if p x then f x else none) = (l.find? p).bind f := by
  induction l with
  | nil => rfl
  | cons x rest ih =>
    obtain ⟨hx, hrest⟩ := List.forall_mem_cons.mp h
    rw [List.findSome?_cons, List.find?_cons]
    cases hp : p x with
    | false => exact ih hrest
    | true =>
      obtain ⟨b, hb⟩ := Option.isSome_iff_exists.mp (hx hp)
      simp only [if_true, hb, Option.bind_some]

namespace Module

variable {m : Module} {ts : List TypeId} {k : Token} {n : String} {t : TypeId} {d : TypeDef}

/-! ## One registration after the other -/

/-- The type is there and has the token. -/
def hasToken (m : Module) (k : Token) (t : TypeId) : Bool := (m.type? t).any (·.token == k)

/-- The type is there and has the full name. -/
def hasName (m : Module) (n : String) (t : TypeId) : Bool := (m.type? t).any (·.fullName == n)

/-- The module with nothing registered. -/
def unregistered (m : Module) : Module := { m with registry := {} }

/-- Register types one after the other. -/
def registerAll (m : Module) (ts : List TypeId) : Module := ts.foldl register m

theorem hasToken_eq_true : m.hasToken k t = true ↔ ∃ d, m.type? t = some d ∧ d.token = k := by
  cases hd : m.type? t <;> simp [hasToken, hd]

theorem hasName_eq_true : m.hasName n t = true ↔ ∃ d, m.type? t = some d ∧ d.fullName = n := by
  cases hd : m.type? t <;> simp [hasName, hd]

theorem register_of_some (hd : m.type? t = some d) :
    m.register t = { m with registry := m.registry.insert d.token d.fullName t } := by
  rw [register, hd]

theorem register_of_none (hd : m.type? t = none) : m.register t = m := by
  rw [register, hd]

@[simp] theorem type?_register (m : Module) (t u : TypeId) : (m.register t).type? u = m.type? u := by
  cases hd : m.type? t with
  | none => rw [register_of_none hd]
  | some d =>
    rw [register_of_some hd]
    rfl

theorem hasToken_register (m : Module) (t : TypeId) : (m.register t).hasToken = m.hasToken := by
  funext k u
  rw [hasToken, type?_register, hasToken]

/-- A registration puts the type under its token and leaves the other tokens alone. -/
theorem get?_register (m : Module) (t : TypeId) (k : Token) :
    (m.register t).registry.get? k = if m.hasToken k t then some t else m.registry.get? k := by
  unfold hasToken
  cases hd : m.type? t with
  | none => rw [register_of_none hd]; rfl
  | some d =>
    rw [register_of_some hd, Registry.get?_insert, Option.any_some]
    by_cases hk : k = d.token
    · rw [if_pos hk, if_pos (beq_iff_eq.mpr hk.symm)]
    · rw [if_neg hk, if_neg fun h => hk (beq_iff_eq.mp h).symm]

theorem sorted_register (h : m.registry.types.Sorted) (t : TypeId) :
    (m.register t).registry.types.Sorted := by
  cases hd : m.type? t with
  | none => rwa [register_of_none hd]
  | some d =>
    rw [register_of_some hd]
    exact TokenMap.sorted_insert _ _ h

/-- The name and the token that a type is recorded with. -/
def record? (m : Module) (t : TypeId) : Option (String × Token) :=
  (m.type? t).map fun d => (d.fullName, d.token)

theorem names_register (m : Module) (t : TypeId) :
    (m.register t).registry.names = m.registry.names ++ (m.record? t).toList := by
  unfold record?
  cases hd : m.type? t with
  | none => simp [register_of_none hd]
  | some d =>
    rw [register_of_some hd]
    rfl

theorem type?_registerAll (m : Module) (ts : List TypeId) (u : TypeId) :
    (m.registerAll ts).type? u = m.type? u := by
  induction ts generalizing m with
  | nil => rfl
  | cons t rest ih => exact (ih (m.register t)).trans (type?_register m t u)

theorem sorted_registerAll (h : m.registry.types.Sorted) (ts : List TypeId) :
    (m.registerAll ts).registry.types.Sorted := by
  induction ts generalizing m with
  | nil => exact h
  | cons t rest ih => exact ih (sorted_register h t)

theorem names_registerAll (m : Module) (ts : List TypeId) :
    (m.registerAll ts).registry.names = m.registry.names ++ ts.filterMap m.record? := by
  induction ts generalizing m with
  | nil => exact (List.append_nil _).symm
  | cons t rest ih =>
    have hrecord : (m.register t).record? = m.record? := by
      funext u
      rw [record?, type?_register, record?]
    show ((m.register t).registerAll rest).registry.names = _
    rw [ih, names_register, hrecord, List.append_assoc, List.filterMap_cons]
    cases m.record? t <;> rfl

theorem get?_registerAll (m : Module) (ts : List TypeId) (k : Token) :
    (m.registerAll ts).registry.get? k
      = (ts.reverse.find? (m.hasToken k)).or (m.registry.get? k) := by
  induction ts generalizing m with
  | nil => rfl
  | cons t rest ih =>
    show ((m.register t).registerAll rest).registry.get? k = _
    rw [ih, hasToken_register, get?_register, List.reverse_cons, List.find?_append, List.find?_singleton]
    cases rest.reverse.find? (m.hasToken k) <;> cases m.hasToken k t <;> rfl

/-! ## Lookups of a registry that was filled -/

theorem get?_filled (m : Module) (ts : List TypeId) (k : Token) :
    (m.unregistered.registerAll ts).registry.get? k = ts.reverse.find? (m.hasToken k) := by
  rw [get?_registerAll]
  exact Option.or_none

theorem isSome_get?_of_mem (ht : t ∈ ts) (hd : m.type? t = some d) :
    ((m.unregistered.registerAll ts).registry.get? d.token).isSome := by
  rw [get?_filled, List.find?_isSome]
  exact ⟨t, List.mem_reverse.mpr ht, hasToken_eq_true.mpr ⟨d, hd, rfl⟩⟩

theorem mem_of_get? (h : (m.unregistered.registerAll ts).registry.get? k = some t) :
    t ∈ ts ∧ ∃ d, m.type? t = some d ∧ d.token = k := by
  rw [get?_filled] at h
  exact ⟨List.mem_reverse.mp (List.mem_of_find?_eq_some h), hasToken_eq_true.mp (List.find?_some h)⟩

/-- By name there is what stands now under the token of the first type that was registered with it. -/
theorem find?_registerAll (m : Module) (ts : List TypeId) (n : String) :
    (m.unregistered.registerAll ts).find? n
      = (ts.find? (m.hasName n)).bind fun t =>
          (m.type? t).bind fun d => (m.unregistered.registerAll ts).registry.get? d.token := by
  have hnames : (m.unregistered.registerAll ts).registry.names = ts.filterMap m.record? :=
    names_registerAll m.unregistered ts
  let stands (t : TypeId) : Option TypeId :=
    (m.type? t).bind fun d => (m.unregistered.registerAll ts).registry.get? d.token
  have hstands : ∀ t ∈ ts, m.hasName n t = true → (stands t).isSome := by
    intro t ht hname
    obtain ⟨d, hd, -⟩ := hasName_eq_true.mp hname
    simp only [stands, hd, Option.bind_some]
    exact isSome_get?_of_mem ht hd
  show (m.unregistered.registerAll ts).registry.find? n = (ts.find? (m.hasName n)).bind stands
  rw [← findSome?_of_candidates hstands, Registry.find?, hnames, ← List.head?_filterMap,
    List.filterMap_filterMap, List.head?_filterMap]
  congr 1
  funext t
  cases hd : m.type? t <;> simp [record?, hasName, stands, hd, Registry.get?]

/-! ## The first declared type of a name -/

/-- Among the stored types of a name, the one with the lowest token. -/
def IsFirst (m : Module) (n : String) (t : TypeId) : Prop :=
  ∃ k, m.registry.get? k = some t ∧ m.hasName n t
    ∧ ∀ k' t', m.registry.get? k' = some t' → m.hasName n t' → k.value ≤ k'.value

/-- Types of one token have one name, and types of one name come in the order of their tokens. -/
structure InDeclarationOrder (m : Module) (ts : List TypeId) : Prop where
  names : ∀ t ∈ ts, ∀ u ∈ ts, ∀ d e, m.type? t = some d → m.type? u = some e →
    d.token = e.token → d.fullName = e.fullName
  tokens : ts.Pairwise fun t u => ∀ d e, m.type? t = some d → m.type? u = some e →
    d.fullName = e.fullName → d.token.value ≤ e.token.value

theorem hasName_registerAll (m : Module) (ts : List TypeId) :
    (m.unregistered.registerAll ts).hasName = m.hasName := by
  funext n t
  exact congrArg (Option.any _) (type?_registerAll m.unregistered ts t)

theorem IsFirst.unique {u : TypeId} (ht : m.IsFirst n t) (hu : m.IsFirst n u) : t = u := by
  obtain ⟨k, hk, hname, hle⟩ := ht
  obtain ⟨k', hk', hname', hle'⟩ := hu
  have hvalue : k.value = k'.value :=
    UInt32.le_antisymm (hle k' u hk' hname') (hle' k t hk hname)
  have hkey : k = k' := congrArg Token.mk hvalue
  exact Option.some.inj (hk.symm.trans (hkey ▸ hk'))

/-- In declaration order the first type that was registered with a name has the lowest token. -/
theorem isFirst_of_find? (horder : m.InDeclarationOrder ts)
    (h : (m.unregistered.registerAll ts).find? n = some t) :
    (m.unregistered.registerAll ts).IsFirst n t := by
  rw [find?_registerAll] at h
  obtain ⟨u, hu, hstored⟩ := Option.bind_eq_some_iff.mp h
  obtain ⟨d, hd, hstored⟩ := Option.bind_eq_some_iff.mp hstored
  obtain ⟨hname, before, behind, rfl, hbefore⟩ := List.find?_eq_some_iff_append.mp hu
  obtain ⟨d', hd', hdn⟩ := hasName_eq_true.mp hname
  obtain rfl := Option.some.inj (hd.symm.trans hd')
  have huts : u ∈ before ++ u :: behind := List.mem_append_right _ List.mem_cons_self
  obtain ⟨hts, e, he, htoken⟩ := mem_of_get? hstored
  refine ⟨d.token, hstored, ?_, fun k' t' hk' ht' => ?_⟩
  · rw [hasName_registerAll, hasName_eq_true]
    exact ⟨e, he, (horder.names t hts u huts e d he hd htoken).trans hdn⟩
  · rw [hasName_registerAll] at ht'
    obtain ⟨e', he', hen⟩ := hasName_eq_true.mp ht'
    obtain ⟨hts', f, hf, rfl⟩ := mem_of_get? hk'
    obtain rfl := Option.some.inj (he'.symm.trans hf)
    rcases List.mem_append.mp hts' with hin | hin
    · exact absurd ht' (by simpa using hbefore t' hin)
    · rcases List.mem_cons.mp hin with rfl | hin
      · obtain rfl := Option.some.inj (hd.symm.trans he')
        exact UInt32.le_refl _
      · have hpairs := (List.pairwise_append.mp horder.tokens).2.1
        exact (List.pairwise_cons.mp hpairs).1 t' hin d e' hd he' (hdn.trans hen.symm)

/-- A name without a stored type was not registered, whatever the order. -/
theorem find?_eq_none_of_not_stored
    (h : ∀ k t, (m.unregistered.registerAll ts).registry.get? k = some t → m.hasName n t = false)
    (horder : m.InDeclarationOrder ts) : (m.unregistered.registerAll ts).find? n = none := by
  refine Option.eq_none_iff_forall_ne_some.mpr fun t ht => ?_
  obtain ⟨k, hk, hname, -⟩ := isFirst_of_find? horder ht
  rw [hasName_registerAll] at hname
  exact absurd (h k t hk) (by simp [hname])

/-- In declaration order a lookup by name finds the first declared type of the name. -/
theorem find?_eq_some_iff_isFirst (horder : m.InDeclarationOrder ts) :
    (m.unregistered.registerAll ts).find? n = some t ↔ (m.unregistered.registerAll ts).IsFirst n t := by
  refine ⟨isFirst_of_find? horder, fun hfirst => ?_⟩
  cases hfind : (m.unregistered.registerAll ts).find? n with
  | some u => exact congrArg some ((isFirst_of_find? horder hfind).unique hfirst)
  | none =>
    obtain ⟨k, hk, hname, -⟩ := hfirst
    rw [hasName_registerAll] at hname
    obtain ⟨hts, d, hd, -⟩ := mem_of_get? hk
    obtain ⟨u, hu⟩ := Option.isSome_iff_exists.mp
      (List.find?_isSome.mpr ⟨t, hts, hname⟩ : (ts.find? (m.hasName n)).isSome)
    obtain ⟨e, he, -⟩ := hasName_eq_true.mp (List.find?_some hu)
    have hsome := isSome_get?_of_mem (List.mem_of_find?_eq_some hu) he
    rw [find?_registerAll, hu, Option.bind_some, he, Option.bind_some] at hfind
    rw [hfind] at hsome
    cases hsome

/-! ## Listings -/

theorem mem_ownTypes {filled : Module} (hsorted : filled.registry.types.Sorted) :
    d ∈ filled.ownTypes
      ↔ ∃ k t, filled.registry.get? k = some t ∧ filled.type? t = some d ∧ d.external = false := by
  simp only [ownTypes, TokenMap.values, List.mem_filter, List.mem_filterMap, List.mem_map,
    Bool.not_eq_true']
  constructor
  · rintro ⟨⟨t, ⟨e, he, rfl⟩, hd⟩, hown⟩
    exact ⟨e.1, e.2, (TokenMap.mem_toList_iff hsorted).mp he, hd, hown⟩
  · rintro ⟨k, t, hk, hd, hown⟩
    exact ⟨⟨t, ⟨(k, t), (TokenMap.mem_toList_iff hsorted).mpr hk, rfl⟩, hd⟩, hown⟩

theorem pairwise_ownTypes {filled : Module} (hsorted : filled.registry.types.Sorted)
    (htokens : ∀ k t d, filled.registry.get? k = some t → filled.type? t = some d → d.token = k) :
    filled.ownTypes.Pairwise fun d e => d.token.value < e.token.value := by
  refine List.Pairwise.filter _ (List.pairwise_filterMap.mpr (List.pairwise_map.mpr ?_))
  refine List.Pairwise.imp_of_mem (fun {a b} ha hb hlt => ?_) hsorted
  have hown : ∀ e ∈ filled.registry.types.entries, ∀ d, filled.type? e.2 = some d → d.token = e.1 :=
    fun e he d => htokens e.1 e.2 d ((TokenMap.mem_toList_iff hsorted).mp he)
  intro d hd e he
  rw [hown a ha d hd, hown b hb e he]
  exact hlt

/-- What the lookups and the listings of a module come to in which types were registered one after the
other. -/
structure Lookups (m : Module) (ts : List TypeId) (filled : Module) : Prop where
  byToken : ∀ k, filled.registry.get? k = ts.reverse.find? (m.hasToken k)
  byName : ∀ n, filled.find? n = (ts.find? (m.hasName n)).bind fun t =>
    (m.type? t).bind fun d => filled.registry.get? d.token
  unknown : ∀ n, filled.find? n = none ↔ ∀ t ∈ ts, m.hasName n t = false
  listed : ∀ k t, (k, t) ∈ filled.registry.toList ↔ filled.registry.get? k = some t
  ascending : filled.registry.toList.Pairwise fun e f => e.1.value < f.1.value
  size : filled.registry.size = filled.registry.toList.length
  own : ∀ d, d ∈ filled.ownTypes
    ↔ ∃ k t, filled.registry.get? k = some t ∧ m.type? t = some d ∧ d.external = false
  ownAscending : filled.ownTypes.Pairwise fun d e => d.token.value < e.token.value
  /-- In declaration order the name finds the first declared of the stored types that have it. -/
  first : m.InDeclarationOrder ts → ∀ n t, filled.find? n = some t ↔ filled.IsFirst n t
  none : m.InDeclarationOrder ts → ∀ n, filled.find? n = none
    ↔ ∀ k t, filled.registry.get? k = some t → filled.hasName n t = false

/-- A name is unknown if no type was registered with it, whatever stands in the registry now. -/
theorem find?_registerAll_eq_none :
    (m.unregistered.registerAll ts).find? n = none ↔ ∀ t ∈ ts, m.hasName n t = false := by
  rw [find?_registerAll]
  cases hfind : ts.find? (m.hasName n) with
  | none => simpa using hfind
  | some u =>
    obtain ⟨d, hd, -⟩ := hasName_eq_true.mp (List.find?_some hfind)
    have hmem := List.mem_of_find?_eq_some hfind
    obtain ⟨v, hv⟩ := Option.isSome_iff_exists.mp (isSome_get?_of_mem hmem hd)
    rw [Option.bind_some, hd, Option.bind_some, hv]
    simp only [reduceCtorEq, false_iff]
    exact fun h => absurd (h u hmem) (by simp [List.find?_some hfind])

/-- Every lookup and every listing of a registry that was filled in any order, under any tokens and names.
The lookup by name is the first declared type of the name if the order was that of declaration. -/
theorem registered_lookups (m : Module) (ts : List TypeId) :
    m.Lookups ts (m.unregistered.registerAll ts) where
  byToken := get?_filled m ts
  byName := find?_registerAll m ts
  unknown n := find?_registerAll_eq_none
  listed k t := TokenMap.mem_toList_iff (sorted_registerAll TokenMap.sorted_empty ts)
  ascending := sorted_registerAll TokenMap.sorted_empty ts
  size := rfl
  own d := by
    rw [mem_ownTypes (sorted_registerAll TokenMap.sorted_empty ts)]
    simp only [type?_registerAll]
    rfl
  ownAscending := by
    refine pairwise_ownTypes (sorted_registerAll TokenMap.sorted_empty ts) fun k t d hk hd => ?_
    obtain ⟨-, e, he, htoken⟩ := mem_of_get? hk
    rw [type?_registerAll] at hd
    obtain rfl := Option.some.inj (he.symm.trans hd)
    exact htoken
  first horder n t := find?_eq_some_iff_isFirst horder
  none horder n := by
    rw [hasName_registerAll]
    refine ⟨fun hnone k t hk => ?_, fun h => find?_eq_none_of_not_stored h horder⟩
    exact find?_registerAll_eq_none.mp hnone t (mem_of_get? hk).1

/-! ## Registrations out of order -/

namespace Registrations

/-- A type with a token and a simple name. -/
def named (row : UInt32) (name : String) : Option TypeDef :=
  some { token := .ofRow .typeDef row, space := "S", name, flavor := .classType, external := false }

/-- Two types of one name, and two types of one token. -/
def module : Module :=
  { name := "Sample", types := #[named 8 "Twin", named 7 "Twin", named 9 "Old", named 9 "New"] }

/-- The earlier of the twins is registered first, and a type of its own token behind them. -/
def ordered : List TypeId := [⟨1⟩, ⟨0⟩, ⟨2⟩, ⟨2⟩]

theorem inDeclarationOrder : module.InDeclarationOrder ordered := by
  have h : ordered.Pairwise fun t u =>
      (module.type? t).all fun d => (module.type? u).all fun e =>
        decide (d.fullName = e.fullName → d.token.value ≤ e.token.value) := by
    decide +kernel
  have hnames : ordered.all fun t => ordered.all fun u =>
      (module.type? t).all fun d => (module.type? u).all fun e =>
        decide (d.token = e.token → d.fullName = e.fullName) := by
    decide +kernel
  refine ⟨fun t ht u hu d e hd he => ?_, h.imp fun {t u} hall d e hd he => ?_⟩
  · have hall := List.all_eq_true.mp (List.all_eq_true.mp hnames t ht) u hu
    rw [hd, Option.all_some, he, Option.all_some] at hall
    exact of_decide_eq_true hall
  · rw [hd, Option.all_some, he, Option.all_some] at hall
    exact of_decide_eq_true hall

end Registrations

open Registrations in
/-- The first twin is found by its name, and the last type of a token by that. -/
theorem registered_lookups_twins :
    module.InDeclarationOrder ordered
      ∧ (module.unregistered.registerAll ordered).IsFirst "S.Twin" ⟨1⟩
      ∧ (module.unregistered.registerAll ordered).registry.get? (.ofRow .typeDef 9) = some ⟨2⟩ := by
  have h := registered_lookups module ordered
  refine ⟨inDeclarationOrder, (h.first inDeclarationOrder "S.Twin" ⟨1⟩).mp ?_, ?_⟩
  · decide +kernel
  · rw [h.byToken]
    decide +kernel

open Registrations in
/-- If the later twin is registered first, it is found by the name although the other one has the lower
token; and if another type takes over a token, it is found by a name that no stored type has. -/
theorem found_out_of_order :
    ((module.unregistered.registerAll [⟨0⟩, ⟨1⟩]).find? "S.Twin" = some ⟨0⟩
      ∧ ¬ (module.unregistered.registerAll [⟨0⟩, ⟨1⟩]).IsFirst "S.Twin" ⟨0⟩)
    ∧ ((module.unregistered.registerAll [⟨2⟩, ⟨3⟩]).find? "S.Old" = some ⟨3⟩
      ∧ ∀ k t, (module.unregistered.registerAll [⟨2⟩, ⟨3⟩]).registry.get? k = some t →
          module.hasName "S.Old" t = false) := by
  refine ⟨⟨by decide +kernel, ?_⟩, by decide +kernel, ?_⟩
  · rintro ⟨k, hk, -, hle⟩
    obtain ⟨-, d, hd, rfl⟩ := mem_of_get? hk
    obtain rfl : d = (named 8 "Twin").get rfl := (Option.some.inj hd).symm
    have h := hle (.ofRow .typeDef 7) ⟨1⟩ (by decide +kernel) (by decide +kernel)
    exact absurd h (by decide +kernel)
  · intro k t hk
    have hsorted := sorted_registerAll (m := module.unregistered) TokenMap.sorted_empty [⟨2⟩, ⟨3⟩]
    have hmem := (TokenMap.mem_toList_iff hsorted).mpr hk
    have hlist : (module.unregistered.registerAll [⟨2⟩, ⟨3⟩]).registry.types.toList
        = [(.ofRow .typeDef 9, ⟨3⟩)] := by
      decide +kernel
    rw [hlist, List.mem_singleton] at hmem
    obtain ⟨-, rfl⟩ := Prod.mk.inj hmem
    decide +kernel

end Module

end SetterLoom
