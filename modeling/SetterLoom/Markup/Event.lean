import SetterLoom.Markup.Construct

/-!
# Events of a markup text

Reading a text gives one event per construct and one more if the text turns out to be malformed, after
which nothing is read. Character data gives no event. An element can only be ended by a tag of its own
name, while it is the innermost open one. Elements may stay open at the end of the text.

* `keyed_events`: no element has two attributes of one key.
-/

namespace SetterLoom.Markup
set_option autoImplicit false

/-- What is reported of a text. -/
inductive Event where
  | element (name : List Char) (attributes : Attributes)
  /-- Anything but the beginning of an element. -/
  | aside
  | malformed
  deriving DecidableEq, Repr

/-- The names of the open elements behind a construct, unless it ends an element that is not the
innermost open one. -/
def openAfter? (names : List (List Char)) : Construct → Option (List (List Char))
  | .opening name _ => some (name :: names)
  | .empty _ _ | .aside => some names
  | .closing name =>
    match names with
    | innermost :: others => if name = innermost then some others else none
    | [] => none

/-- The events that a construct gives. -/
def Construct.events : Construct → List Event
  | .opening name attributes | .empty name attributes => [.element name attributes]
  | .closing _ | .aside => [.aside]

/-- The events of a text inside the given open elements, the innermost first. -/
def eventsWithin (names : List (List Char)) (text : List Char) : List Event :=
  match _ : text.dropWhile (· != '<') with
  | [] => []
  | _ :: markup =>
    match end? markup with
    | none => [.malformed]
    | some position =>
      match Construct.ofContent? (markup.take position) with
      | none => [.malformed]
      | some construct =>
        match openAfter? names construct with
        | none => [.malformed]
        | some names => construct.events ++ eventsWithin names (markup.drop (position + 1))
termination_by text.length
decreasing_by
  rename_i htext
  have h := (List.dropWhile_sublist (· != '<') (l := text)).length_le
  rw [htext] at h
  simp only [List.length_cons, List.length_drop] at h ⊢
  omega

/-- The events of a text. -/
def events (text : String) : List Event := eventsWithin [] text.toList

/-- No element has two attributes of one key. -/
def Keyed (events : List Event) : Prop :=
  ∀ name attributes, .element name attributes ∈ events → (attributes.list.map (·.key)).Nodup

theorem Keyed.append {first second : List Event} (h : Keyed first) (h' : Keyed second) :
    Keyed (first ++ second) := fun name attributes hmem =>
  (List.mem_append.mp hmem).elim (h name attributes) (h' name attributes)

theorem keyed_malformed : Keyed [.malformed] := fun _ _ hmem => nomatch List.mem_singleton.mp hmem

/-- The attributes of an element are read from its tag. -/
theorem Construct.keyed_events {content : List Char} {construct : Construct}
    (h : ofContent? content = some construct) : Keyed construct.events := by
  have htag : ∀ tag, ((attributesOf tag).list.map (·.key)).Nodup := fun tag => (keys_fresh [] _).1
  intro name attributes hmem
  unfold ofContent? at h
  split at h
  case h_6 tag _ _ _ _ _ =>
    split at h
    all_goals
      obtain rfl := Option.some.inj h
      obtain ⟨rfl, rfl⟩ := Event.element.inj (List.mem_singleton.mp hmem)
      exact htag _
  -- what is no tag begins no element
  all_goals
    try split at h
    all_goals
      cases h
      try exact nomatch List.mem_singleton.mp hmem

theorem eventsWithin_eq (names : List (List Char)) (text : List Char) :
    eventsWithin names text = match text.dropWhile (· != '<') with
      | [] => []
      | _ :: markup =>
        match end? markup with
        | none => [.malformed]
        | some position =>
          match Construct.ofContent? (markup.take position) with
          | none => [.malformed]
          | some construct =>
            match openAfter? names construct with
            | none => [.malformed]
            | some names => construct.events ++ eventsWithin names (markup.drop (position + 1)) := by
  rw [eventsWithin]
  split
  · rename_i htext
    exact htext ▸ rfl
  · rename_i htext
    exact htext ▸ rfl

theorem keyed_eventsWithin (names : List (List Char)) (text : List Char) : Keyed (eventsWithin names text) := by
  induction names, text using eventsWithin.induct with
  | case1 names text htext =>
    rw [eventsWithin_eq, htext]
    exact fun _ _ hmem => nomatch hmem
  | case2 names text c markup htext hend =>
    rw [eventsWithin_eq, htext]
    simp only [hend]
    exact keyed_malformed
  | case3 names text c markup htext position hend hcontent =>
    rw [eventsWithin_eq, htext]
    simp only [hend, hcontent]
    exact keyed_malformed
  | case4 names text c markup htext position hend construct hcontent hopen =>
    rw [eventsWithin_eq, htext]
    simp only [hend, hcontent, hopen]
    exact keyed_malformed
  | case5 names text c markup htext position hend construct hcontent names' hopen ih =>
    rw [eventsWithin_eq, htext]
    simp only [hend, hcontent, hopen]
    exact (Construct.keyed_events hcontent).append ih

theorem keyed_events (text : String) : Keyed (events text) := keyed_eventsWithin [] text.toList

end SetterLoom.Markup
