import SetterLoom.Proofs.Machine.History
import SetterLoom.Proofs.Machine.Later
import SetterLoom.Machine.Run

/-!
# Values that are equal as objects

The runtime compares two values for a method without a body. What a value is compared by is its face: a
string has its text, a box its type and its value, and everything else is compared by itself. Values are equal
exactly if they have one face, which makes the comparison an equivalence. Strings and boxes never change and
objects never go away, so neither does the face of a value that is there.

* `Action.valuesEqual_run`: the comparison of two values that are there.
* `Heap.face_of_kept`: what happens to the heap later does not change a face.
* `Site.comparison_stable`: the comparison is an equivalence, and later operations do not change it.
-/

namespace SetterLoom
set_option autoImplicit false

/-- What a value is compared by. -/
inductive Face where
  | text (s : String)
  | box (type : Token) (value : Value)
  | itself (v : Value)
  deriving DecidableEq, Repr

/-- What a reference to an object is compared by. -/
def HeapObject.face (r : HeapRef) : HeapObject → Face
  | .string s => .text s
  | .boxed t v => .box t v
  | .object _ _ | .delegate _ _ => .itself (.ref r)

namespace Heap

variable {h h' : Heap} {a b v : Value} {r : HeapRef} {o : HeapObject}

/-- A value that is a reference refers to an object. -/
def Has (h : Heap) (v : Value) : Prop := ∀ r, v.ref? = some r → (h.get? r).isSome

/-- What a value is compared by. -/
def face (h : Heap) (v : Value) : Face :=
  match v.ref?.bind fun r => (h.get? r).map (·.face r) with
  | some face => face
  | none => .itself v

theorem has_ref (hr : h.get? r = some o) : h.Has (.ref r) := by
  intro q hq
  obtain rfl := Option.some.inj hq
  rw [hr]
  rfl

theorem has_of_not_ref (hv : v.ref? = none) : h.Has v := by
  intro r hr
  rw [hv] at hr
  cases hr

theorem exists_of_has (hhas : h.Has (.ref r)) : ∃ o, h.get? r = some o :=
  Option.isSome_iff_exists.mp (hhas r rfl)

theorem face_ref (hr : h.get? r = some o) : h.face (.ref r) = o.face r := by
  simp [face, Value.ref?, hr]

theorem face_of_not_ref (hv : v.ref? = none) : h.face v = .itself v := by
  simp [face, hv]

theorem face_cases (h : Heap) (v : Value) :
    (∃ r s, v = .ref r ∧ h.get? r = some (.string s) ∧ h.face v = .text s)
      ∨ (∃ r t w, v = .ref r ∧ h.get? r = some (.boxed t w) ∧ h.face v = .box t w)
      ∨ h.face v = .itself v := by
  cases v with
  | ref r =>
    cases hr : h.get? r with
    | none => exact .inr (.inr (by simp [face, Value.ref?, hr]))
    | some o =>
      cases o with
      | string s => exact .inl ⟨r, s, rfl, hr, face_ref hr⟩
      | boxed t w => exact .inr (.inl ⟨r, t, w, rfl, hr, face_ref hr⟩)
      | object | delegate => exact .inr (.inr (face_ref hr))
  | void | int | null | struct | address | function => exact .inr (.inr rfl)

/-- A value that is compared by itself is equal to no other one. -/
theorem face_eq_itself_iff : h.face v = .itself a ↔ v = a ∧ h.face a = .itself a := by
  constructor
  · intro hv
    rcases h.face_cases v with ⟨r, s, -, -, hface⟩ | ⟨r, t, w, -, -, hface⟩ | hface
    · cases hface.symm.trans hv
    · cases hface.symm.trans hv
    · obtain rfl := Face.itself.inj (hface.symm.trans hv)
      exact ⟨rfl, hface⟩
  · rintro ⟨rfl, hv⟩
    exact hv

theorem face_eq_text_iff {s : String} :
    h.face v = .text s ↔ ∃ r, v = .ref r ∧ h.get? r = some (.string s) := by
  constructor
  · intro hv
    rcases h.face_cases v with ⟨r, s', rfl, hr, hface⟩ | ⟨r, t, w, -, -, hface⟩ | hface
    · obtain rfl := Face.text.inj (hface.symm.trans hv)
      exact ⟨r, rfl, hr⟩
    · cases hface.symm.trans hv
    · cases hface.symm.trans hv
  · rintro ⟨r, rfl, hr⟩
    exact face_ref hr

theorem face_eq_box_iff {t : Token} {w : Value} :
    h.face v = .box t w ↔ ∃ r, v = .ref r ∧ h.get? r = some (.boxed t w) := by
  constructor
  · intro hv
    rcases h.face_cases v with ⟨r, s, -, -, hface⟩ | ⟨r, t', w', rfl, hr, hface⟩ | hface
    · cases hface.symm.trans hv
    · obtain ⟨rfl, rfl⟩ := Face.box.inj (hface.symm.trans hv)
      exact ⟨r, rfl, hr⟩
    · cases hface.symm.trans hv
  · rintro ⟨r, rfl, hr⟩
    exact face_ref hr

/-! ## Later heaps -/

theorem face_of_kept_object {o' : HeapObject} (hkept : o.Kept o') (r : HeapRef) : o'.face r = o.face r := by
  cases hkept with
  | same => rfl
  | stored => rfl

/-- A value that is there keeps its face, whatever is made and stored. -/
theorem face_of_kept
    (hkept : ∀ r o, h.get? r = some o → ∃ o', h'.get? r = some o' ∧ o.Kept o') (hv : h.Has v) :
    h'.Has v ∧ h'.face v = h.face v := by
  cases href : v.ref? with
  | none =>
    exact ⟨has_of_not_ref href, by rw [face_of_not_ref href, face_of_not_ref href]⟩
  | some r =>
    obtain rfl : v = .ref r := by
      cases v with
      | ref q => exact congrArg Value.ref (Option.some.inj href)
      | _ => cases href
    obtain ⟨o, ho⟩ := exists_of_has hv
    obtain ⟨o', ho', hsame⟩ := hkept r o ho
    exact ⟨has_ref ho', by rw [face_ref ho', face_ref ho, face_of_kept_object hsame]⟩

end Heap

theorem HeapOp.later_history (ops : List HeapOp) (s : Machine) : s.Later (history ops s).2 := by
  induction ops generalizing s with
  | nil => exact .refl s
  | cons op ops ih =>
    refine Machine.Later.trans ?_ (ih (op.perform.run.run s).2)
    rcases perform_cases (Prod.eta (op.perform.run.run s)).symm with
      ⟨o, -, -, ht⟩ | ⟨r, f, v, type, fields, -, hr, -, ht⟩ | ⟨-, -, -, ht⟩
    · rw [ht]
      exact (Machine.Later.refl s).push o
    · rw [ht]
      exact (Machine.Later.refl s).put hr f v
    · rw [ht]
      exact .refl s

/-! ## The comparison -/

namespace Action

variable {s : Machine} {a b : Value}

theorem heap_get_run {r : HeapRef} {o : HeapObject} (hr : s.heap.get? r = some o) :
    (heap (·.get r)).run.run s = (.ok o, s) := by
  rw [heap_run, Heap.get, hr]

theorem valuesEqual_of_plain (hplain : a.ref? = none ∨ b.ref? = none) : valuesEqual a b = pure (a == b) := by
  cases a with
  | ref p =>
    cases b with
    | ref q => rcases hplain with hnone | hnone <;> cases hnone
    | _ => rfl
  | _ => rfl

/-- If one of two values is compared by itself, they have one face only if they are the same. -/
theorem face_eq_face_of_plain {h : Heap} (hplain : a.ref? = none ∨ b.ref? = none) :
    h.face a = h.face b ↔ a = b := by
  refine ⟨fun hface => ?_, fun hsame => by rw [hsame]⟩
  rcases hplain with hnone | hnone
  · rw [Heap.face_of_not_ref hnone] at hface
    exact (Heap.face_eq_itself_iff.mp hface.symm).1.symm
  · rw [Heap.face_of_not_ref hnone] at hface
    exact (Heap.face_eq_itself_iff.mp hface).1

/-- Two objects under different references are compared by their texts, or by their types and values. -/
theorem objectsEqual_eq {p q : HeapRef} (hpq : p ≠ q) (o o' : HeapObject) :
    (match o, o' with
      | .string x, .string y => x == y
      | .boxed t v, .boxed u w => t == u && v == w
      | _, _ => false) = decide (o.face p = o'.face q) := by
  cases o <;> cases o' <;> simp [HeapObject.face, hpq, beq_eq_decide]

/-- Values that are there are equal exactly if they have one face. -/
theorem valuesEqual_run (ha : s.heap.Has a) (hb : s.heap.Has b) :
    (valuesEqual a b).run.run s = (.ok (decide (s.heap.face a = s.heap.face b)), s) := by
  by_cases hplain : a.ref? = none ∨ b.ref? = none
  · rw [valuesEqual_of_plain hplain, beq_eq_decide, decide_eq_decide.mpr (face_eq_face_of_plain hplain)]
    rfl
  · obtain ⟨p, q, rfl, rfl⟩ : ∃ p q, a = .ref p ∧ b = .ref q := by
      cases a <;> cases b <;> simp [Value.ref?] at hplain ⊢
    obtain ⟨o, ho⟩ := Heap.exists_of_has ha
    obtain ⟨o', ho'⟩ := Heap.exists_of_has hb
    by_cases hpq : p = q
    · subst hpq
      simp only [valuesEqual, if_pos, decide_true]
      rfl
    · rw [Heap.face_ref ho, Heap.face_ref ho', ← objectsEqual_eq hpq]
      simp only [valuesEqual, if_neg hpq]
      rw [bind_run, heap_get_run ho]
      dsimp only
      rw [bind_run, heap_get_run ho']
      cases o <;> cases o' <;> rfl

end Action

namespace Site

/-- The hook for the comparison is asked about two values. -/
def comparison (c : Site) (call : Call) (this : Option Value) (a b : Value) : Action (Option Value) :=
  c.askHook call RuntimeMember.objectEquals.hook this [a, b]

/-- The hook answers in a state that two values are equal, or that they are not. It changes nothing. -/
def Decides (c : Site) (call : Call) (this : Option Value) (s : Machine) (equal : Bool) (a b : Value) : Prop :=
  (c.comparison call this a b).run.run s = (.ok (some (.int (if equal then 1 else 0))), s)

/-- What the answers of the comparison are like for the values that are there in a state. -/
structure ComparesStably (c : Site) (call : Call) (this : Option Value) (s : Machine) : Prop where
  /-- It never fails. -/
  decides : ∀ a b, s.heap.Has a → s.heap.Has b → ∃ equal, c.Decides call this s equal a b
  refl : ∀ a, s.heap.Has a → c.Decides call this s true a a
  symm : ∀ a b, s.heap.Has a → s.heap.Has b → c.Decides call this s true a b → c.Decides call this s true b a
  trans : ∀ a b d, s.heap.Has a → s.heap.Has b → s.heap.Has d → c.Decides call this s true a b →
    c.Decides call this s true b d → c.Decides call this s true a d
  strings : ∀ r text b, s.heap.get? r = some (.string text) → s.heap.Has b →
    (c.Decides call this s true (.ref r) b ↔ ∃ q, b = .ref q ∧ s.heap.get? q = some (.string text))
  boxes : ∀ r type value b, s.heap.get? r = some (.boxed type value) → s.heap.Has b →
    (c.Decides call this s true (.ref r) b ↔ ∃ q, b = .ref q ∧ s.heap.get? q = some (.boxed type value))
  null : ∀ b, s.heap.Has b → (c.Decides call this s true .null b ↔ b = .null)
  objects : ∀ r type fields b, s.heap.get? r = some (.object type fields) → s.heap.Has b →
    (c.Decides call this s true (.ref r) b ↔ b = .ref r)
  delegates : ∀ r type list b, s.heap.get? r = some (.delegate type list) → s.heap.Has b →
    (c.Decides call this s true (.ref r) b ↔ b = .ref r)
  /-- Later operations do not change an answer. -/
  stable : ∀ a b equal ops, s.heap.Has a → s.heap.Has b → c.Decides call this s equal a b →
    c.Decides call this (HeapOp.history ops s).2 equal a b

variable {c : Site} {call : Call} {this : Option Value} {s t : Machine} {a b : Value}

/-- For a method without a body the answer is whether the values have one face. -/
theorem decides_faces (hbody : c.method.body = none) (ha : s.heap.Has a) (hb : s.heap.Has b) :
    c.Decides call this s (decide (s.heap.face a = s.heap.face b)) a b := by
  have hnone : ¬ c.method.body.isSome := by rw [hbody]; exact nofun
  simp only [Decides, comparison, askHook, RuntimeMember.hook, if_neg hnone, Action.answerFor,
    Action.objectEquals]
  rw [Likeness.tryCatch_run, Action.bind_run, Action.bind_run, Action.valuesEqual_run ha hb]
  rfl

theorem decides_iff (hbody : c.method.body = none) (ha : s.heap.Has a) (hb : s.heap.Has b) {equal : Bool} :
    c.Decides call this s equal a b ↔ decide (s.heap.face a = s.heap.face b) = equal := by
  have hfaces : c.Decides call this s (decide (s.heap.face a = s.heap.face b)) a b := decides_faces hbody ha hb
  refine ⟨fun hdecides => ?_, fun hsame => hsame ▸ hfaces⟩
  have hanswer := (Prod.mk.inj (hfaces.symm.trans hdecides)).1
  revert hanswer
  cases decide (s.heap.face a = s.heap.face b) <;> cases equal <;> simp

theorem decides_true_iff (hbody : c.method.body = none) (ha : s.heap.Has a) (hb : s.heap.Has b) :
    c.Decides call this s true a b ↔ s.heap.face a = s.heap.face b :=
  (decides_iff hbody ha hb).trans decide_eq_true_iff

theorem decides_later (hbody : c.method.body = none) (ha : s.heap.Has a) (hb : s.heap.Has b)
    (hlater : s.Later t) {equal : Bool} (hdecides : c.Decides call this s equal a b) :
    c.Decides call this t equal a b := by
  obtain ⟨ha', hfa⟩ := Heap.face_of_kept hlater.objects ha
  obtain ⟨hb', hfb⟩ := Heap.face_of_kept hlater.objects hb
  rw [decides_iff hbody ha' hb', hfa, hfb]
  exact (decides_iff hbody ha hb).mp hdecides

/-- **Equality of objects.** Asked for a method without a body, in any state and about any values whose
references are to objects, the comparison never fails and is an equivalence. It relates strings of one text,
boxes of one type and value, null to null only, and an object or a delegate only to itself. What it answered
once about two values it answers again after any operations on the heap. -/
theorem comparison_stable (c : Site) (hbody : c.method.body = none) (call : Call) (this : Option Value)
    (s : Machine) : c.ComparesStably call this s where
  decides a b ha hb := ⟨_, decides_faces hbody ha hb⟩
  refl a ha := (decides_true_iff hbody ha ha).mpr rfl
  symm a b ha hb hab := by
    rw [decides_true_iff hbody ha hb] at hab
    exact (decides_true_iff hbody hb ha).mpr hab.symm
  trans a b d ha hb hd hab hbd := by
    rw [decides_true_iff hbody ha hb] at hab
    rw [decides_true_iff hbody hb hd] at hbd
    exact (decides_true_iff hbody ha hd).mpr (hab.trans hbd)
  strings r text b hr hb := by
    rw [decides_true_iff hbody (Heap.has_ref hr) hb, Heap.face_ref hr, eq_comm]
    exact Heap.face_eq_text_iff
  boxes r type value b hr hb := by
    rw [decides_true_iff hbody (Heap.has_ref hr) hb, Heap.face_ref hr, eq_comm]
    exact Heap.face_eq_box_iff
  null b hb := by
    rw [decides_true_iff hbody (Heap.has_of_not_ref rfl) hb]
    exact (Action.face_eq_face_of_plain (.inl rfl)).trans eq_comm
  objects r type fields b hr hb := by
    rw [decides_true_iff hbody (Heap.has_ref hr) hb, eq_comm, Heap.face_ref hr]
    exact Heap.face_eq_itself_iff.trans (and_iff_left (Heap.face_ref hr))
  delegates r type list b hr hb := by
    rw [decides_true_iff hbody (Heap.has_ref hr) hb, eq_comm, Heap.face_ref hr]
    exact Heap.face_eq_itself_iff.trans (and_iff_left (Heap.face_ref hr))
  stable a b equal ops ha hb hdecides := decides_later hbody ha hb (HeapOp.later_history ops s) hdecides

/-- A comparison without a body. -/
def bodiless : Site where
  module := { name := "Library" }
  method := ⟨⟨0x06000001⟩, Surface.equals, .publicAccess, .staticBit, [], none, 0, [], none, none⟩

/-- Two strings of one text, two boxes of one number, and an object. -/
def pairs : Machine :=
  (HeapOp.history [.makeString "Name", .makeString "Name", .makeBox ⟨0x02000001⟩ (.int 5),
    .makeBox ⟨0x02000001⟩ (.int 5), .makeObject ⟨0x02000002⟩] {}).2

/-- The same objects after a store and with one more string. -/
def laterPairs : Machine :=
  (HeapOp.history [.setField ⟨5⟩ ⟨0x04000001⟩ (.ref ⟨1⟩), .makeString "Name"] pairs).2

/-- The strings are equal and the boxes are, and the store does not make the object equal to the string. -/
theorem comparison_stable_pairs :
    bodiless.Decides (Action.invoke bodiless.module) none laterPairs true (.ref ⟨1⟩) (.ref ⟨2⟩)
      ∧ bodiless.Decides (Action.invoke bodiless.module) none laterPairs true (.ref ⟨3⟩) (.ref ⟨4⟩)
      ∧ ¬ bodiless.Decides (Action.invoke bodiless.module) none laterPairs true (.ref ⟨5⟩) (.ref ⟨1⟩) := by
  have hpairs := comparison_stable bodiless rfl (Action.invoke bodiless.module) none pairs
  have hlater := comparison_stable bodiless rfl (Action.invoke bodiless.module) none laterPairs
  have htext : pairs.heap.get? ⟨1⟩ = some (.string "Name") := by decide
  have htext' : pairs.heap.get? ⟨2⟩ = some (.string "Name") := by decide
  have hbox : pairs.heap.get? ⟨3⟩ = some (.boxed ⟨0x02000001⟩ (.int 5)) := by decide
  have hbox' : pairs.heap.get? ⟨4⟩ = some (.boxed ⟨0x02000001⟩ (.int 5)) := by decide
  refine ⟨?_, ?_, fun hequal => ?_⟩
  · refine hpairs.stable _ _ _ _ (Heap.has_ref htext) (Heap.has_ref htext') ?_
    exact (hpairs.strings _ _ _ htext (Heap.has_ref htext')).mpr ⟨_, rfl, htext'⟩
  · refine hpairs.stable _ _ _ _ (Heap.has_ref hbox) (Heap.has_ref hbox') ?_
    exact (hpairs.boxes _ _ _ _ hbox (Heap.has_ref hbox')).mpr ⟨_, rfl, hbox'⟩
  · have htext : laterPairs.heap.get? ⟨1⟩ = some (.string "Name") := by decide
    obtain ⟨fields, hobject⟩ : ∃ fields, laterPairs.heap.get? ⟨5⟩ = some (.object ⟨0x02000002⟩ fields) :=
      ⟨_, rfl⟩
    cases (hlater.objects _ _ _ _ hobject (Heap.has_ref htext)).mp hequal

end Site

end SetterLoom
