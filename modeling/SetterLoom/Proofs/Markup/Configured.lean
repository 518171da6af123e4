import Mathlib.Data.List.Perm.Basic
import Mathlib.Data.List.Nodup
import SetterLoom.Options

/-!
# Options from a markup text

The options of a pass are what the attributes of one element say, the first one with the right name. Other
events in front of it, anything behind it, attributes that hold no switch and the order of the attributes
make no difference. Reading succeeds exactly if each attribute that holds a switch spells a truth value. All
this holds of any reader that gives no element two attributes of one key.

* `withAttributes_eq_ok_iff`: the options that the attributes of an element stand for.
* `ofEvents_of_passed`, `ofEvents_of_heldBy`: which element counts.
* `ofText_by_first`: what the options of a text depend on.
-/

namespace SetterLoom
set_option autoImplicit false

/-- The attribute holds a switch. -/
def Markup.Attribute.Holds (a : Markup.Attribute) (s : Switch) : Prop := String.ofList a.key = s.key

instance (a : Markup.Attribute) (s : Switch) : Decidable (a.Holds s) := inferInstanceAs (Decidable (_ = _))

/-- The attribute holds any switch. -/
def Markup.Attribute.isSwitch (a : Markup.Attribute) : Bool := (Switch.ofKey? (String.ofList a.key)).isSome

namespace Switch

theorem ofKey?_eq_some_iff {key : String} {s : Switch} : ofKey? key = some s ↔ key = s.key := by
  constructor
  · intro h
    rw [ofKey?, List.find?_eq_some_iff_append] at h
    exact (beq_iff_eq.mp h.1).symm
  · rintro rfl
    cases s <;> rfl

theorem key_injective {s t : Switch} (h : s.key = t.key) : s = t :=
  Option.some.inj ((ofKey?_eq_some_iff.mpr rfl).symm.trans (ofKey?_eq_some_iff.mpr h))

theorem ofKey?_eq_none_iff {key : String} : ofKey? key = none ↔ ∀ s : Switch, key ≠ s.key := by
  constructor
  · intro h s hkey
    rw [ofKey?_eq_some_iff.mpr hkey] at h
    cases h
  · intro h
    cases hkey : ofKey? key with
    | none => rfl
    | some s => exact absurd (ofKey?_eq_some_iff.mp hkey) (h s)

end Switch

namespace Options

theorem ext_get {o o' : Options} (h : ∀ s, o.get s = o'.get s) : o = o' := by
  obtain ⟨a, b, c, d⟩ := o
  obtain ⟨a', b', c', d'⟩ := o'
  obtain rfl : a = a' := h .changeHooks
  obtain rfl : b = b' := h .dirtyFlag
  obtain rfl : c = c' := h .childChanges
  obtain rfl : d = d' := h .validation
  rfl

/-! ## Attributes -/

/-- A value spells a truth value, in any case and with white space around it. -/
def Spells (value : List Char) (on : Bool) : Prop :=
  (Text.trimmed value).map Char.toLower = (if on then "true" else "false").toList

instance (value : List Char) (on : Bool) : Decidable (Spells value on) :=
  inferInstanceAs (Decidable (_ = _))

theorem Spells.unique {value : List Char} {on on' : Bool} (h : Spells value on) (h' : Spells value on') :
    on = on' := by
  have hsame := h.symm.trans h'
  cases on <;> cases on' <;> first | rfl | exact absurd hsame (by decide)

theorem readValue_eq_ok_iff {key : String} {value : List Char} {on : Bool} :
    readValue key value = .ok on ↔ Spells value on := by
  unfold readValue Spells
  dsimp only
  split
  · rename_i htrue
    rw [htrue]
    cases on <;> simp
  · rename_i htrue
    split
    · rename_i hfalse
      rw [hfalse]
      cases on <;> simp
    · rename_i hfalse
      refine ⟨nofun, fun h => ?_⟩
      cases on with
      | true => exact absurd h htrue
      | false => exact absurd h hfalse

/-- The options that some attributes stand for: a switch is what its attribute spells, and what it was if
there is no attribute for it. -/
structure Given (start : Options) (list : List Markup.Attribute) (o : Options) : Prop where
  spelled : ∀ a ∈ list, ∀ s, a.Holds s → Spells a.value (o.get s)
  kept : ∀ s, (∀ a ∈ list, ¬ a.Holds s) → o.get s = start.get s

variable {start o : Options} {list list' : List Markup.Attribute} {a : Markup.Attribute} {s : Switch}

theorem given_nil_iff : Given start [] o ↔ o = start := by
  refine ⟨fun h => ext_get fun s => h.kept s nofun, ?_⟩
  rintro rfl
  exact ⟨nofun, fun _ _ => rfl⟩

theorem given_cons_of_not_holds (hnot : ∀ s, ¬ a.Holds s) : Given start (a :: list) o ↔ Given start list o := by
  constructor
  · intro h
    exact ⟨fun b hb => h.spelled b (List.mem_cons_of_mem a hb),
      fun s hs => h.kept s (List.forall_mem_cons.mpr ⟨hnot s, hs⟩)⟩
  · intro h
    refine ⟨List.forall_mem_cons.mpr ⟨fun s hs => absurd hs (hnot s), h.spelled⟩, fun s hs => ?_⟩
    exact h.kept s (List.forall_mem_cons.mp hs).2

theorem given_cons_of_holds (hholds : a.Holds s) (hothers : ∀ b ∈ list, ¬ b.Holds s) :
    Given start (a :: list) o ↔ ∃ on, Spells a.value on ∧ Given (start.set s on) list o := by
  constructor
  · intro h
    have hspelled := h.spelled a List.mem_cons_self s hholds
    refine ⟨o.get s, hspelled, fun b hb => h.spelled b (List.mem_cons_of_mem a hb), fun t ht => ?_⟩
    rw [get_set]
    split
    · rename_i hts
      rw [hts]
    · rename_i hts
      refine h.kept t (List.forall_mem_cons.mpr ⟨fun hat => hts ?_, ht⟩)
      exact Switch.key_injective (hat.symm.trans hholds)
  · rintro ⟨on, hon, h⟩
    have hset : o.get s = on := by rw [h.kept s hothers, get_set, if_pos rfl]
    refine ⟨List.forall_mem_cons.mpr ⟨fun t hat => ?_, h.spelled⟩, fun t ht => ?_⟩
    · obtain rfl : t = s := Switch.key_injective (hat.symm.trans hholds)
      rw [hset]
      exact hon
    · obtain ⟨hat, hrest⟩ := List.forall_mem_cons.mp ht
      rw [h.kept t hrest, get_set, if_neg fun hts : t = s => hat (hts ▸ hholds)]

/-- Only attributes that hold a switch matter, in any order. -/
theorem Given.of_same (hsame : ∀ a s, a.Holds s → (a ∈ list ↔ a ∈ list')) (h : Given start list o) :
    Given start list' o :=
  ⟨fun a ha s hs => h.spelled a ((hsame a s hs).mpr ha) s hs,
    fun s hs => h.kept s fun a ha hholds => hs a ((hsame a s hholds).mp ha) hholds⟩

theorem withAttribute_of_not_holds (hnot : ∀ s, ¬ a.Holds s) : withAttribute start a = .ok start := by
  simp only [withAttribute, Switch.ofKey?_eq_none_iff.mpr hnot]

theorem withAttribute_of_holds (hholds : a.Holds s) :
    withAttribute start a = (start.set s ·) <$> readValue s.key a.value := by
  simp only [withAttribute, Switch.ofKey?_eq_some_iff.mpr hholds]

/-- Attributes that hold different switches are taken into account one after the other. -/
theorem foldlM_eq_ok_iff (hkeys : (list.map (·.key)).Nodup) :
    list.foldlM withAttribute start = .ok o ↔ Given start list o := by
  induction list generalizing start with
  | nil =>
    rw [given_nil_iff]
    exact ⟨fun h => (Except.ok.inj h).symm, fun h => congrArg Except.ok h.symm⟩
  | cons a list ih =>
    -- no other attribute holds the switch of the first one, so it is settled from here on
    obtain ⟨hkey, hkeys⟩ := List.nodup_cons.mp hkeys
    rw [List.foldlM_cons]
    by_cases hholds : ∃ s, a.Holds s
    · obtain ⟨s, hholds⟩ := hholds
      have hothers : ∀ b ∈ list, ¬ b.Holds s := fun b hb hbs => by
        have hsame : b.key = a.key := String.ofList_injective (hbs.trans hholds.symm)
        exact hkey (List.mem_map.mpr ⟨b, hb, hsame⟩)
      rw [withAttribute_of_holds hholds, given_cons_of_holds hholds hothers]
      cases hread : readValue s.key a.value with
      | ok on =>
        refine (ih hkeys).trans ⟨fun h => ⟨on, readValue_eq_ok_iff.mp hread, h⟩, ?_⟩
        rintro ⟨on', hon', h⟩
        rwa [(readValue_eq_ok_iff.mp hread).unique hon']
      | error e =>
        refine ⟨nofun, ?_⟩
        rintro ⟨on, hon, -⟩
        cases hread.symm.trans (readValue_eq_ok_iff.mpr hon)
    · have hnot : ∀ s, ¬ a.Holds s := fun s hs => hholds ⟨s, hs⟩
      rw [withAttribute_of_not_holds hnot, given_cons_of_not_holds hnot]
      exact ih hkeys

/-- Taking attributes into account succeeds if each one that holds a switch spells a truth value. -/
theorem foldlM_isOk_iff :
    (∃ o, list.foldlM withAttribute start = .ok o)
      ↔ ∀ a ∈ list, ∀ s, a.Holds s → ∃ on, Spells a.value on := by
  induction list generalizing start with
  | nil => exact ⟨fun _ => nofun, fun _ => ⟨start, rfl⟩⟩
  | cons a list ih =>
    rw [List.foldlM_cons, List.forall_mem_cons]
    by_cases hholds : ∃ s, a.Holds s
    · obtain ⟨s, hholds⟩ := hholds
      have honly : (∀ t, a.Holds t → ∃ on, Spells a.value on) ↔ ∃ on, Spells a.value on :=
        ⟨fun h => h s hholds, fun h _ _ => h⟩
      rw [withAttribute_of_holds hholds, honly]
      cases hread : readValue s.key a.value with
      | ok on => exact ih.trans (and_iff_right ⟨on, readValue_eq_ok_iff.mp hread⟩).symm
      | error e =>
        refine ⟨fun ⟨o, h⟩ => ?_, fun ⟨⟨on, hon⟩, _⟩ => ?_⟩
        · cases h
        · cases hread.symm.trans (readValue_eq_ok_iff.mpr hon)
    · have hnot : ∀ s, ¬ a.Holds s := fun s hs => hholds ⟨s, hs⟩
      rw [withAttribute_of_not_holds hnot]
      exact ih.trans (and_iff_right fun s hs => absurd hs (hnot s)).symm

/-- Attributes that hold no switch make no difference, not even to the kind of failure. -/
theorem foldlM_filter (list : List Markup.Attribute) :
    (list.filter (·.isSwitch)).foldlM withAttribute start = list.foldlM withAttribute start := by
  induction list generalizing start with
  | nil => rfl
  | cons a list ih =>
    rw [List.foldlM_cons, List.filter_cons]
    cases hkey : Switch.ofKey? (String.ofList a.key) with
    | some s =>
      rw [if_pos (by rw [Markup.Attribute.isSwitch, hkey]; rfl), List.foldlM_cons]
      exact congrArg _ (funext fun o => ih)
    | none =>
      have hnot : ∀ s, ¬ a.Holds s := Switch.ofKey?_eq_none_iff.mp hkey
      rw [if_neg (by rw [Markup.Attribute.isSwitch, hkey]; nofun), withAttribute_of_not_holds hnot]
      exact ih

/-- The attributes of an element give options exactly if they are well-formed and stand for these. -/
theorem withAttributes_eq_ok_iff {attributes : Markup.Attributes} (hkeys : (attributes.list.map (·.key)).Nodup) :
    withAttributes start attributes = .ok o ↔ attributes.wellFormed ∧ Given start attributes.list o := by
  rw [← foldlM_eq_ok_iff hkeys, withAttributes]
  cases attributes.list.foldlM withAttribute start with
  | error e => exact ⟨nofun, fun ⟨_, h⟩ => by cases h⟩
  | ok o' => cases attributes.wellFormed <;> simp [bind, Except.bind]

theorem withAttributes_isOk_iff {attributes : Markup.Attributes} :
    (∃ o, withAttributes start attributes = .ok o)
      ↔ attributes.wellFormed ∧ ∀ a ∈ attributes.list, ∀ s, a.Holds s → ∃ on, Spells a.value on := by
  have hlist : (∃ o, attributes.list.foldlM withAttribute start = .ok o)
      ↔ ∀ a ∈ attributes.list, ∀ s, a.Holds s → ∃ on, Spells a.value on := foldlM_isOk_iff
  rw [← hlist, withAttributes]
  cases attributes.list.foldlM withAttribute start with
  | error e => exact ⟨fun ⟨_, h⟩ => by (cases h), fun ⟨_, _, h⟩ => by (cases h)⟩
  | ok o' => cases attributes.wellFormed <;> simp [bind, Except.bind]

/-- Attributes whose order differs give the same options, or none in both cases. -/
theorem withAttributes_perm {attributes attributes' : Markup.Attributes}
    (hperm : attributes'.list.Perm attributes.list) (hformed : attributes'.wellFormed = attributes.wellFormed)
    (hkeys : (attributes.list.map (·.key)).Nodup) :
    withAttributes start attributes' = .ok o ↔ withAttributes start attributes = .ok o := by
  have hkeys' : (attributes'.list.map (·.key)).Nodup := (hperm.map _).nodup_iff.mpr hkeys
  rw [withAttributes_eq_ok_iff hkeys', withAttributes_eq_ok_iff hkeys, hformed]
  refine and_congr_right fun _ => ⟨Given.of_same fun a s _ => hperm.mem_iff, ?_⟩
  exact Given.of_same fun a s _ => hperm.mem_iff.symm

/-- Attributes that hold the same switches in the same order give the same result. -/
theorem withAttributes_of_filter {attributes attributes' : Markup.Attributes}
    (hsame : attributes'.list.filter (·.isSwitch) = attributes.list.filter (·.isSwitch))
    (hformed : attributes'.wellFormed = attributes.wellFormed) :
    withAttributes start attributes' = withAttributes start attributes := by
  simp only [withAttributes]
  rw [← foldlM_filter attributes'.list, hsame, foldlM_filter, hformed]

/-! ## The element that counts -/

/-- An event that is passed over: it is not the beginning of an element that carries options. -/
def Passed : Markup.Event → Prop
  | .element name _ => String.ofList name ≠ elementName
  | .aside => True
  | .malformed => False

instance (e : Markup.Event) : Decidable (Passed e) := by
  cases e <;> unfold Passed <;> infer_instance

/-- The first element that carries options has these attributes, and it is reached. -/
def HeldBy (attributes : Markup.Attributes) (events : List Markup.Event) : Prop :=
  ∃ before name rest, events = before ++ .element name attributes :: rest ∧ (∀ e ∈ before, Passed e)
    ∧ String.ofList name = elementName

variable {before rest events : List Markup.Event} {name : List Char} {attributes attributes' : Markup.Attributes}

theorem ofEvents_append (hbefore : ∀ e ∈ before, Passed e) : ofEvents (before ++ rest) = ofEvents rest := by
  induction before with
  | nil => rfl
  | cons e before ih =>
    obtain ⟨hpassed, hothers⟩ := List.forall_mem_cons.mp hbefore
    cases e with
    | element name attributes =>
      rw [List.cons_append, ofEvents, if_neg hpassed]
      exact ih hothers
    | aside => exact ih hothers
    | malformed => exact hpassed.elim

theorem ofEvents_of_passed (hevents : ∀ e ∈ events, Passed e) : ofEvents events = .ok {} := by
  rw [← List.append_nil events, ofEvents_append hevents]
  rfl

theorem ofEvents_of_heldBy (h : HeldBy attributes events) : ofEvents events = withAttributes {} attributes := by
  obtain ⟨before, name, rest, rfl, hbefore, hname⟩ := h
  rw [ofEvents_append hbefore, ofEvents, if_pos hname]

theorem HeldBy.nodup_keys (h : HeldBy attributes events) (hkeyed : Markup.Keyed events) :
    (attributes.list.map (·.key)).Nodup := by
  obtain ⟨before, name, rest, rfl, -⟩ := h
  exact hkeyed name attributes (List.mem_append_right _ List.mem_cons_self)

/-! ## Texts -/

/-- What the options of a text depend on if an element with these attributes decides them. -/
structure DecidedBy (read : String → List Markup.Event) (text : String) (attributes : Markup.Attributes) :
    Prop where
  /-- Other events may come before the element, and anything may come behind it. -/
  surrounded : ∀ text', HeldBy attributes (read text') → ofText read text' = ofText read text
  /-- Its attributes may come in any order. -/
  permuted : ∀ text' attributes', HeldBy attributes' (read text') → attributes'.list.Perm attributes.list →
    attributes'.wellFormed = attributes.wellFormed → ∀ o, ofText read text' = .ok o ↔ ofText read text = .ok o
  /-- Attributes that hold no switch may be added and removed. -/
  filtered : ∀ text' attributes', HeldBy attributes' (read text') →
    attributes'.list.filter (·.isSwitch) = attributes.list.filter (·.isSwitch) →
      attributes'.wellFormed = attributes.wellFormed → ofText read text' = ofText read text
  /-- There are options exactly if each attribute that holds a switch spells a truth value. -/
  isOk_iff : (∃ o, ofText read text = .ok o)
    ↔ attributes.wellFormed ∧ ∀ a ∈ attributes.list, ∀ s, a.Holds s → ∃ on, Spells a.value on
  /-- The options are the usual ones except for what is spelled. -/
  given : ∀ o, ofText read text = .ok o → Given {} attributes.list o

/-- **The options of a text.** Whatever reader gives the events of texts, with no two attributes of one key in
an element: a text without an element that carries options has the usual ones. If the first such element is
reached, it decides, whatever other events come before it and whatever follows. Neither the order of its
attributes matters nor those that hold no switch. There are options exactly if each of its attributes that
holds a switch spells a truth value; a switch is what its attribute spells, and on if it has none. -/
theorem ofText_by_first (read : String → List Markup.Event) (hkeyed : ∀ text, Markup.Keyed (read text))
    (text : String) :
    ((∀ e ∈ read text, Passed e) → ofText read text = .ok {})
      ∧ ∀ attributes, HeldBy attributes (read text) → DecidedBy read text attributes := by
  refine ⟨ofEvents_of_passed, fun attributes hheld => ?_⟩
  have hkeys := hheld.nodup_keys (hkeyed text)
  have htext : ofText read text = withAttributes {} attributes := ofEvents_of_heldBy hheld
  refine ⟨fun text' hheld' => ?_, fun text' attributes' hheld' hperm hformed o => ?_,
    fun text' attributes' hheld' hsame hformed => ?_, ?_, fun o ho => ?_⟩
  · exact (ofEvents_of_heldBy hheld').trans htext.symm
  · rw [ofText, ofEvents_of_heldBy hheld', htext]
    exact withAttributes_perm hperm hformed hkeys
  · rw [ofText, ofEvents_of_heldBy hheld', htext]
    exact withAttributes_of_filter hsame hformed
  · rw [htext]
    exact withAttributes_isOk_iff
  · rw [htext] at ho
    exact ((withAttributes_eq_ok_iff hkeys).mp ho).2

/-- The attribute that turns the check off. -/
def uncheckedAttribute : Markup.Attribute := ⟨"ValidateOutput".toList, " False ".toList⟩

/-- An attribute that holds no switch. -/
def strangeAttribute : Markup.Attribute := ⟨['B'], []⟩

/-- The check is turned off in an element behind the beginning of another one, and the text breaks off. -/
def uncheckedText : String := "<A><PropertyChanged B='' ValidateOutput=' False '/><"

/-- The same attributes in the other order. -/
def permutedText : String := "<PropertyChanged ValidateOutput=' False ' B=''></PropertyChanged>"

/-- The attribute that holds a switch alone. -/
def bareText : String := "<!-- -->\n<PropertyChanged ValidateOutput=' False '/>"

/-- Only the check is off, in whatever order the attributes stand, and also without the strange one and all that
is around. -/
theorem ofText_by_first_unchecked :
    ofMarkup uncheckedText = .ok { validation := false } ∧ ofMarkup permutedText = .ok { validation := false }
      ∧ ofMarkup bareText = .ok { validation := false } := by
  have hname : String.ofList "PropertyChanged".toList = elementName := String.ofList_toList
  have hheld : HeldBy ⟨[strangeAttribute, uncheckedAttribute], true⟩ (Markup.events uncheckedText) :=
    ⟨[.element ['A'] ⟨[], true⟩], "PropertyChanged".toList, [.malformed], by decide +kernel, by decide, hname⟩
  have hpermuted : HeldBy ⟨[uncheckedAttribute, strangeAttribute], true⟩ (Markup.events permutedText) :=
    ⟨[], "PropertyChanged".toList, [.aside], by decide +kernel, nofun, hname⟩
  have hbare : HeldBy ⟨[uncheckedAttribute], true⟩ (Markup.events bareText) :=
    ⟨[.aside], "PropertyChanged".toList, [], by decide +kernel, by decide, hname⟩
  have hdecided := (ofText_by_first Markup.events Markup.keyed_events uncheckedText).2 _ hheld
  have hcheck : uncheckedAttribute.Holds .validation := by decide
  have hspells : Spells uncheckedAttribute.value false := by decide
  have hother : ∀ s, ¬ strangeAttribute.Holds s := by
    intro s
    cases s <;> decide
  obtain ⟨o, ho⟩ : ∃ o, ofMarkup uncheckedText = .ok o := by
    refine hdecided.isOk_iff.mpr ⟨rfl, List.forall_mem_cons.mpr ⟨fun s hs => absurd hs (hother s), ?_⟩⟩
    exact List.forall_mem_cons.mpr ⟨fun _ _ => ⟨false, hspells⟩, nofun⟩
  have hgiven := hdecided.given o ho
  have hon : ∀ s, ¬ uncheckedAttribute.Holds s → o.get s = true := fun s hs =>
    (hgiven.kept s (List.forall_mem_cons.mpr ⟨hother s, List.forall_mem_cons.mpr ⟨hs, nofun⟩⟩)).trans
      (by cases s <;> rfl)
  obtain rfl : o = { validation := false } := ext_get fun s => by
    cases s with
    | validation =>
      exact (hgiven.spelled _ (List.mem_cons_of_mem _ List.mem_cons_self) .validation hcheck).unique hspells
    | changeHooks | dirtyFlag | childChanges => exact hon _ (by decide)
  exact ⟨ho, (hdecided.permuted _ _ hpermuted (.swap _ _ _) rfl _).mpr ho,
    (hdecided.filtered _ _ hbare (by decide) rfl).trans ho⟩

end Options

end SetterLoom
