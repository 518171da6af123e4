import Mathlib.Data.List.Find
import SetterLoom.Proofs.Module.Alike
import SetterLoom.Proofs.Module.Lines
import SetterLoom.Proofs.Weave.Added

/-!
# Modules that grew by handlers

A pass edits the code of setters, marks them, and declares handlers. Nothing else that weaving looks up
changes by that: a type has the same base types, interfaces and events, a method the same signature, and
handlers have names that nobody looks for.

* `Module.Shaped`: modules whose types differ in the lists of their methods only.
* `Module.Grown`: what a pass makes of a module, as far as look-ups see it.
* `Resolver.Steady`, `steady_refusing`: the usual resolver, with or without refusals, does not notice.
-/

namespace SetterLoom
set_option autoImplicit false

/-! ## The types -/

/-- A type without the list of its methods. -/
def TypeDef.shape (d : TypeDef) : TypeDef := { d with methods := [] }

/-- The entry of a method that is declared with a type. -/
def MethodSpec.entry (s : MethodSpec) (token : Token) (t : TypeId) : Method :=
  { token, name := s.name, access := s.access, modifiers := s.modifiers, params := s.params,
    returns := s.returns, generics := s.generics, attributes := s.attributes, owner := some t, body := s.body }

namespace Module

/-- Modules whose types differ at most in the lists of their methods. -/
structure Shaped (m m' : Module) : Prop where
  size : m'.types.size = m.types.size
  types : ∀ t, (m'.type? t).map TypeDef.shape = (m.type? t).map TypeDef.shape

namespace Shaped

variable {m m' m'' : Module}

theorem refl (m : Module) : m.Shaped m := ⟨rfl, fun _ => rfl⟩

theorem trans (h : m.Shaped m') (h' : m'.Shaped m'') : m.Shaped m'' :=
  ⟨h'.size.trans h.size, fun t => (h'.types t).trans (h.types t)⟩

theorem of_types (h : m'.types = m.types) : m.Shaped m' :=
  ⟨by rw [h], fun t => by rw [Module.type?_of_types h]⟩

theorem type? (h : m.Shaped m') {t : TypeId} {d' : TypeDef} (hd : m'.type? t = some d') :
    ∃ d, m.type? t = some d ∧ d'.shape = d.shape := by
  have ht := h.types t
  rw [hd, Option.map_some] at ht
  obtain ⟨d, hd, hshape⟩ := Option.map_eq_some_iff.mp ht.symm
  exact ⟨d, hd, hshape.symm⟩

theorem any_isValue (h : m.Shaped m') (t : TypeId) :
    (m'.type? t).any (·.isValue) = (m.type? t).any (·.isValue) := by
  have hshape : ∀ x : Option TypeDef, x.any (·.isValue) = (x.map TypeDef.shape).any (·.isValue) := by
    intro x
    cases x <;> rfl
  rw [hshape, h.types, ← hshape]

theorem line (h : m.Shaped m') (t : TypeId) :
    (m'.line t).map (fun e => (e.1, e.2.shape)) = (m.line t).map fun e => (e.1, e.2.shape) := by
  have hbound : ∀ bound t, (m'.lineUpTo bound t).map (fun e => (e.1, e.2.shape))
      = (m.lineUpTo bound t).map fun e => (e.1, e.2.shape) := by
    intro bound
    induction bound with
    | zero => exact fun _ => rfl
    | succ bound ih =>
      intro t
      have ht := h.types t
      rw [lineUpTo, lineUpTo]
      cases hd' : m'.type? t with
      | none =>
        rw [hd', Option.map_none] at ht
        rw [Option.map_eq_none_iff.mp ht.symm]
      | some d' =>
        rw [hd', Option.map_some] at ht
        obtain ⟨d, hd, hshape⟩ := Option.map_eq_some_iff.mp ht.symm
        have hbase : d'.shape.base = d.shape.base := by rw [hshape]
        rw [hd]
        dsimp only
        rw [List.map_cons, List.map_cons, hshape, show d'.base = d.base from hbase]
        cases d.base with
        | none => rfl
        | some base => rw [Option.elim_some, Option.elim_some, ih base]
  unfold Module.line
  rw [h.size]
  exact hbound _ t

theorem exists_of_mem_line (h : m.Shaped m') {t : TypeId} {e : TypeId × TypeDef}
    (he : e ∈ m'.line t) : ∃ d, (e.1, d) ∈ m.line t ∧ d.shape = e.2.shape := by
  have hmem : (e.1, e.2.shape) ∈ (m'.line t).map fun e => (e.1, e.2.shape) :=
    List.mem_map_of_mem he
  rw [h.line] at hmem
  obtain ⟨⟨u, d⟩, hd, heq⟩ := List.mem_map.mp hmem
  obtain ⟨rfl, hshape⟩ := Prod.mk.inj heq
  exact ⟨d, hd, hshape⟩

end Shaped

theorem exists_of_publicEvent? {m : Module} {t : TypeId} {name : String} {event : Event}
    (h : m.publicEvent? t name = some event) : ∃ e ∈ m.line t, event ∈ e.2.events := by
  unfold publicEvent? at h
  obtain ⟨e, he, hfound⟩ := List.exists_of_findSome?_eq_some h
  exact ⟨e, he, List.mem_of_find?_eq_some hfound⟩

theorem mem_methods {m : Module} {i : MethodId} {d : Method} (h : m.method? i = some d) :
    some d ∈ m.methods.toList := by
  have hi := Option.join_eq_some_iff.mp h
  rw [← Array.getElem?_toList] at hi
  exact List.mem_of_getElem? hi

theorem mem_types {m : Module} {t : TypeId} {d : TypeDef} (h : m.type? t = some d) :
    some d ∈ m.types.toList := by
  have ht := Option.join_eq_some_iff.mp h
  rw [← Array.getElem?_toList] at ht
  exact List.mem_of_getElem? ht

theorem method?_declareOn_eq (s : MethodSpec) (t : TypeId) (m : Module) (j : MethodId) :
    (s.declareOn t m).2.method? j
      = if j = ⟨m.methods.size⟩ then some (s.entry (m.drawToken .methodDef).1 t) else m.method? j := by
  let added : Method :=
    { token := (m.drawToken .methodDef).1, name := s.name, access := s.access,
      modifiers := s.modifiers, params := s.params, returns := s.returns, generics := s.generics,
      attributes := s.attributes, body := s.body }
  have hadded : ((m.drawToken .methodDef).2.addMethod added).2.method? j
      = if j.index = m.methods.size then some added else m.method? j := by
    show ((m.methods.push (some added))[j.index]?).join = _
    rw [Array.getElem?_push]
    split <;> rfl
  unfold MethodSpec.declareOn attachMethod
  rw [method?_updateType, method?_updateMethod]
  show (if (⟨m.methods.size⟩ : MethodId) = j
      then (((m.drawToken .methodDef).2.addMethod added).2.method? j).map fun d =>
        { d with owner := d.owner.or (some t) }
      else ((m.drawToken .methodDef).2.addMethod added).2.method? j) = _
  by_cases hj : j = ⟨m.methods.size⟩
  · subst hj
    rw [if_pos rfl, if_pos rfl, hadded, if_pos rfl]
    rfl
  · have hindex : j.index ≠ m.methods.size := fun heq => hj (by cases j; exact congrArg _ heq)
    rw [if_neg (Ne.symm hj), if_neg hj, hadded, if_neg hindex]

theorem exists_declareOn (s : MethodSpec) (t : TypeId) (m : Module) :
    m.method? (s.declareOn t m).1 = none ∧ ∃ d : Method, d.name = s.name ∧ d.modifiers = s.modifiers
      ∧ d.body = s.body ∧ ∀ j, (s.declareOn t m).2.method? j
        = if j = (s.declareOn t m).1 then some d else m.method? j := by
  have hnew : (s.declareOn t m).1 = ⟨m.methods.size⟩ := rfl
  rw [hnew]
  exact ⟨by simp [method?], s.entry (m.drawToken .methodDef).1 t, rfl, rfl, rfl, method?_declareOn_eq s t m⟩

theorem shaped_declareOn (s : MethodSpec) (t : TypeId) (m : Module) :
    m.Shaped (s.declareOn t m).2 := by
  have hgains := gains_declareOn s t m ⟨0⟩
  refine ⟨?_, fun u => ?_⟩
  · unfold MethodSpec.declareOn attachMethod updateType
    simp only [Array.size_modify]
    rfl
  · by_cases hu : u = t
    · subst hu
      rw [hgains.type, Option.map_map]
      rfl
    · rw [hgains.types u hu]

end Module

/-! ## What a look-up sees of a method -/

/-- The method is named as handlers are. -/
def Method.IsHandler (d : Method) : Prop := ∃ property, d.name = delegateName property

/-- The name is not one that handlers have. -/
def Plain (name : String) : Prop := ∀ property, name ≠ delegateName property

theorem plain_of_head {name : String} (h : name.toList.head? ≠ some '<') : Plain name := by
  rintro property rfl
  refine h ?_
  show ("<set_" ++ property ++ ">delegateMethod").toList.head? = some '<'
  rw [String.toList_append, String.toList_append]
  rfl

theorem plain_hookName (property : String) : Plain (hookName property) := by
  refine plain_of_head ?_
  show ("On" ++ property ++ "Changed").toList.head? ≠ some '<'
  rw [String.toList_append, String.toList_append]
  exact (by decide : some 'O' ≠ some '<')

namespace Module

variable {m m' : Module}

/-- The module grew by handlers: of the methods that were there only code and attributes are others. -/
structure Grown (m m' : Module) : Prop extends m.Shaped m' where
  registry : m'.registry = m.registry
  serial : m.serial ≤ m'.serial
  count : m.methods.size ≤ m'.methods.size
  methods : ∀ i : MethodId, i.index < m.methods.size →
    (m'.method? i).map Method.signature = (m.method? i).map Method.signature
  handlers : ∀ (i : MethodId) d, m.methods.size ≤ i.index → m'.method? i = some d → d.IsHandler
  lists : ∀ t d d', m.type? t = some d → m'.type? t = some d' →
    ∃ added, d'.methods = d.methods ++ added ∧ ∀ i ∈ added, m.methods.size ≤ i.index

theorem method?_of_size_le {i : MethodId} (h : m.methods.size ≤ i.index) : m.method? i = none := by
  unfold method?
  rw [Array.getElem?_eq_none h]
  rfl

namespace Grown

variable {m'' : Module}

theorem refl (m : Module) : m.Grown m where
  toShaped := .refl m
  registry := rfl
  serial := Nat.le_refl _
  count := Nat.le_refl _
  methods _ _ := rfl
  handlers i d hi hd := by rw [method?_of_size_le hi] at hd; cases hd
  lists t d d' hd hd' := by
    obtain rfl := Option.some.inj (hd.symm.trans hd')
    exact ⟨[], (List.append_nil _).symm, fun _ hi => absurd hi List.not_mem_nil⟩

theorem trans (h : m.Grown m') (h' : m'.Grown m'') : m.Grown m'' where
  toShaped := h.toShaped.trans h'.toShaped
  registry := h'.registry.trans h.registry
  serial := Nat.le_trans h.serial h'.serial
  count := Nat.le_trans h.count h'.count
  methods i hi := (h'.methods i (Nat.lt_of_lt_of_le hi h.count)).trans (h.methods i hi)
  handlers i d'' hi hd'' := by
    by_cases hold : i.index < m'.methods.size
    · have hsame := h'.methods i hold
      rw [hd'', Option.map_some] at hsame
      obtain ⟨d', hd', heq⟩ := Option.map_eq_some_iff.mp hsame.symm
      obtain ⟨property, hname⟩ := h.handlers i d' hi hd'
      exact ⟨property, (Alike.name_eq heq).symm.trans hname⟩
    · exact h'.handlers i d'' (Nat.le_of_not_lt hold) hd''
  lists t d d'' hd hd'' := by
    obtain ⟨d', hd', -⟩ := h'.type? hd''
    obtain ⟨added, hlist, hadded⟩ := h.lists t d d' hd hd'
    obtain ⟨more, hlist', hmore⟩ := h'.lists t d' d'' hd' hd''
    refine ⟨added ++ more, by rw [hlist', hlist, List.append_assoc], fun i hi => ?_⟩
    rcases List.mem_append.mp hi with hi | hi
    · exact hadded i hi
    · exact Nat.le_trans h.count (hmore i hi)

theorem of_signatures (h : m.Grown m') (htypes : m''.types = m'.types)
    (hregistry : m''.registry = m'.registry) (hserial : m'.serial ≤ m''.serial)
    (hsize : m''.methods.size = m'.methods.size)
    (hmethods : ∀ i, (m''.method? i).map Method.signature = (m'.method? i).map Method.signature) :
    m.Grown m'' where
  toShaped := h.toShaped.trans (.of_types htypes)
  registry := hregistry.trans h.registry
  serial := Nat.le_trans h.serial hserial
  count := by rw [hsize]; exact h.count
  methods i hi := (hmethods i).trans (h.methods i hi)
  handlers i d hi hd := by
    have hd' := hmethods i
    rw [hd, Option.map_some] at hd'
    obtain ⟨d', hd', hsame⟩ := Option.map_eq_some_iff.mp hd'.symm
    obtain ⟨property, hname⟩ := h.handlers i d' hi hd'
    exact ⟨property, (Alike.name_eq hsame).symm.trans hname⟩
  lists t d d'' hd hd'' := by
    exact h.lists t d d'' hd (Module.type?_of_types htypes t ▸ hd'')

theorem withSerial (h : m.Grown m') {serial : Nat} (hserial : m'.serial ≤ serial) :
    m.Grown { m' with serial } :=
  h.of_signatures rfl rfl hserial rfl fun _ => rfl

theorem setBody (h : m.Grown m') {i : MethodId} {d : Method} (hd : m'.method? i = some d)
    (hbody : d.body.isSome = true) (body : Body) {serial : Nat} (hserial : m'.serial ≤ serial) :
    m.Grown { m'.setBody i (some body) with serial } :=
  h.of_signatures rfl rfl hserial (Array.size_modify ..)
    (alike_setBody hd hbody body serial).signatures

theorem addAttribute (h : m.Grown m') (i : MethodId) (name : String) : m.Grown (m'.addAttribute i name) := by
  refine h.of_signatures rfl rfl (Nat.le_refl _) (Array.size_modify ..) fun j => ?_
  unfold Module.addAttribute
  rw [method?_updateMethod]
  split
  · rw [Option.map_map]
    rfl
  · rfl

theorem declareOn (h : m.Grown m') {s : MethodSpec} {property : String}
    (hname : s.name = delegateName property) (t : TypeId) : m.Grown (s.declareOn t m').2 := by
  have hmethods := method?_declareOn_eq s t m'
  have hsize : (s.declareOn t m').2.methods.size = m'.methods.size + 1 := by
    show ((m'.methods.push _).modify _ _).size = _
    rw [Array.size_modify, Array.size_push]
  refine {
    toShaped := h.toShaped.trans (shaped_declareOn s t m')
    registry := h.registry
    serial := h.serial
    count := by rw [hsize]; exact Nat.le_succ_of_le h.count
    methods := fun i hi => ?_
    handlers := fun i d hi hd => ?_
    lists := fun u d d' hd hd' => ?_ }
  · have hne : i ≠ ⟨m'.methods.size⟩ := by
      rintro rfl
      exact absurd (Nat.lt_of_lt_of_le hi h.count) (Nat.lt_irrefl _)
    rw [hmethods, if_neg hne]
    exact h.methods i hi
  · rw [hmethods] at hd
    split at hd
    · obtain rfl := Option.some.inj hd
      exact ⟨property, hname⟩
    · exact h.handlers i d hi hd
  -- only the type that the handler is declared with has one entry more
  · have hgains := gains_declareOn s t m' ⟨0⟩
    by_cases hu : u = t
    · subst hu
      rw [hgains.type] at hd'
      obtain ⟨e, he, rfl⟩ := Option.map_eq_some_iff.mp hd'
      obtain ⟨added, hlist, hadded⟩ := h.lists u d e hd he
      refine ⟨added ++ [⟨m'.methods.size⟩], ?_, fun i hi => ?_⟩
      · show e.methods ++ [⟨m'.methods.size⟩] = _
        rw [hlist, List.append_assoc]
      · rcases List.mem_append.mp hi with hi | hi
        · exact hadded i hi
        · obtain rfl := List.mem_singleton.mp hi
          exact h.count
    · rw [hgains.types u hu] at hd'
      exact h.lists u d d' hd hd'

section

variable (h : m.Grown m')
include h

theorem any_method? {i : MethodId} (hi : i.index < m.methods.size) (p : Method → Bool)
    (hp : ∀ d, p d.signature = p d) : (m'.method? i).any p = (m.method? i).any p := by
  have hany : ∀ x : Option Method, x.any p = (x.map Method.signature).any p := by
    intro x
    cases x with
    | none => rfl
    | some d => exact (hp d).symm
  rw [hany, h.methods i hi, ← hany]

/-- No handler has a plain name. -/
theorem any_name {name : String} (hname : Plain name) (i : MethodId) :
    (m'.method? i).any (·.name == name) = (m.method? i).any (·.name == name) := by
  by_cases hi : i.index < m.methods.size
  · exact h.any_method? hi _ fun _ => rfl
  · rw [method?_of_size_le (Nat.le_of_not_lt hi), Option.any_none]
    cases hd : m'.method? i with
    | none => rfl
    | some d =>
      obtain ⟨property, heq⟩ := h.handlers i d (Nat.le_of_not_lt hi) hd
      rw [Option.any_some, beq_eq_false_iff_ne, heq]
      exact fun hsame => hname property hsame.symm

theorem methodNamed? {name : String} (hname : Plain name) {t : TypeId} {d d' : TypeDef}
    (hd : m.type? t = some d) (hd' : m'.type? t = some d') :
    m'.methodNamed? d' name = m.methodNamed? d name := by
  obtain ⟨added, hlist, hadded⟩ := h.lists t d d' hd hd'
  unfold Module.methodNamed?
  have hnone : added.find? (fun i => (m'.method? i).any (·.name == name)) = none := by
    rw [List.find?_eq_none]
    intro i hi
    rw [h.any_name hname, method?_of_size_le (hadded i hi)]
    exact Bool.false_ne_true
  rw [hlist, List.find?_append, hnone, Option.or_none]
  exact congrArg (List.find? · d.methods) (funext fun i => h.any_name hname i)

theorem findSome?_line {α : Type} {f f' : TypeId × TypeDef → Option α}
    (hf : ∀ t d d', m.type? t = some d → m'.type? t = some d' → f' (t, d') = f (t, d)) (t : TypeId) :
    (m'.line t).findSome? f' = (m.line t).findSome? f := by
  -- by induction on how far the walk may go: base types are the same in both modules
  have hbound : ∀ bound t, (m'.lineUpTo bound t).findSome? f' = (m.lineUpTo bound t).findSome? f := by
    intro bound
    induction bound with
    | zero => exact fun _ => rfl
    | succ bound ih =>
      intro t
      have ht := h.types t
      cases hd : m.type? t with
      | none =>
        rw [hd, Option.map_none, Option.map_eq_none_iff] at ht
        rw [lineUpTo_of_none _ hd, lineUpTo_of_none _ ht]
        rfl
      | some d =>
        rw [hd, Option.map_some] at ht
        obtain ⟨d', hd', hshape⟩ := Option.map_eq_some_iff.mp ht
        have hbase : d'.shape.base = d.shape.base := by rw [hshape]
        rw [lineUpTo_eq_cons bound hd, lineUpTo_eq_cons bound hd', show d'.base = d.base from hbase,
          List.findSome?_cons, List.findSome?_cons, hf t d d' hd hd']
        cases d.base with
        | none => rfl
        | some base => rw [Option.elim_some, Option.elim_some, ih base]
  unfold Module.line
  rw [h.size]
  exact hbound _ t

theorem methodInLine? {name : String} (hname : Plain name) (t : TypeId) :
    m'.methodInLine? t name = m.methodInLine? t name :=
  h.findSome?_line (fun _ _ _ hd hd' => h.methodNamed? hname hd hd') t

theorem isSome_type? (t : TypeId) : (m'.type? t).isSome = (m.type? t).isSome := by
  have ht := congrArg Option.isSome (h.types t)
  rwa [Option.isSome_map, Option.isSome_map] at ht

theorem map_isValue (t : TypeId) : (m'.type? t).map (·.isValue) = (m.type? t).map (·.isValue) := by
  have ht := congrArg (Option.map fun d : TypeDef => d.isValue) (h.types t)
  rwa [Option.map_map, Option.map_map] at ht

theorem any_typeName (t : TypeId) (name : String) :
    (m'.type? t).any (·.name == name) = (m.type? t).any (·.name == name) := by
  have ht := congrArg (Option.any fun d : TypeDef => d.name == name) (h.types t)
  rwa [Option.any_map, Option.any_map] at ht

theorem require (name : String) : m'.require name = m.require name := by
  unfold Module.require Module.find?
  rw [h.registry]

theorem publicEvent? (hevents : ∀ t d, m.type? t = some d → ∀ e ∈ d.events, ∀ i ∈ e.methods,
      i.index < m.methods.size) (t : TypeId) (typeName : String) :
    m'.publicEvent? t typeName = m.publicEvent? t typeName := by
  have haccessor : ∀ (x : Option MethodId), (∀ i ∈ x, i.index < m.methods.size) →
      (x.bind m'.method?).map Method.signature = (x.bind m.method?).map Method.signature := by
    intro x hx
    cases x with
    | none => rfl
    | some i => exact h.methods i (hx i rfl)
  have hpublic : ∀ e : Event, (∀ i ∈ e.methods, i.index < m.methods.size) →
      m'.isPublicEvent e = m.isPublicEvent e := by
    intro e he
    have hadd := haccessor e.add fun i hi => he i (by simp [Event.methods, Option.mem_def.mp hi])
    have hremove := haccessor e.remove fun i hi => he i (by simp [Event.methods, Option.mem_def.mp hi])
    have hall : ∀ n : Module, n.isPublicEvent e
        = ((e.add.bind n.method?).map Method.signature).elim false fun add =>
          ((e.remove.bind n.method?).map Method.signature).elim false fun remove =>
            add.isPublic && remove.isPublic := by
      intro n
      unfold isPublicEvent
      cases e.add.bind n.method? <;> cases e.remove.bind n.method? <;> rfl
    rw [hall, hall, hadd, hremove]
  refine h.findSome?_line (fun u d d' hd hd' => ?_) t
  have hshape : d'.shape = d.shape := by
    have hu := h.types u
    rw [hd, hd', Option.map_some, Option.map_some] at hu
    exact Option.some.inj hu
  have hsame : d'.shape.events = d.shape.events := by rw [hshape]
  show d'.events.find? _ = d.events.find? _
  rw [show d'.events = d.events from hsame]
  refine List.find?_congr fun e he => ?_
  rw [hpublic e (hevents u d hd e he)]
  unfold isEventOf
  rw [h.any_typeName]

theorem implements (c : Capability) (t : TypeId) : m'.implements c t = m.implements c t := by
  have hdeclares : ∀ d d' : TypeDef, d'.shape = d.shape → m'.declares c d' = m.declares c d := by
    intro d d' hshape
    have hsame : d'.shape.interfaces = d.shape.interfaces := by rw [hshape]
    unfold declares
    rw [show d'.interfaces = d.interfaces from hsame]
    exact congrArg (List.any d.interfaces) (funext fun i => h.any_typeName i _)
  have hany : ∀ n : Module, n.implements c t
      = ((n.line t).map fun e => (e.1, e.2.shape)).any fun e => n.declares c e.2 := by
    intro n
    unfold Module.implements
    rw [List.any_map]
    rfl
  rw [hany, hany, h.line t]
  exact congrArg (List.any _) (funext fun e => hdeclares e.2 e.2 rfl)

end

end Grown

end Module

/-! ## Resolvers -/

/-- The resolver finds the same in every module that grew from this one, and only what was there. -/
structure Resolver.Steady (r : Resolver) (m : Module) : Prop where
  objectType : ∀ m', m.Grown m' → r.objectType m' = r.objectType m
  objectEquals : ∀ m', m.Grown m' → r.objectEquals m' = r.objectEquals m
  handlerConstructor : ∀ m', m.Grown m' → r.handlerConstructor m' = r.handlerConstructor m
  eventArgsType : ∀ m', m.Grown m' → r.eventArgsType m' = r.eventArgsType m
  objectEquals_old : ∀ i, r.objectEquals m = .ok i → i.index < m.methods.size
  handlerConstructor_old : ∀ i, r.handlerConstructor m = .ok i → i.index < m.methods.size

namespace Resolver

variable {m m' : Module}

theorem constructorOf_grown (h : m.Grown m') (typeName : String) :
    constructorOf typeName m' = constructorOf typeName m := by
  have hplain : Plain Surface.constructor := plain_of_head (by decide)
  unfold constructorOf
  rw [h.require]
  cases m.require typeName with
  | error e => rfl
  | ok t =>
    have hfound : ((m'.type? t).bind fun d => m'.methodNamed? d Surface.constructor)
        = (m.type? t).bind fun d => m.methodNamed? d Surface.constructor := by
      have ht := h.types t
      cases hd : m.type? t with
      | none =>
        rw [hd, Option.map_none, Option.map_eq_none_iff] at ht
        rw [ht]
        rfl
      | some d =>
        rw [hd, Option.map_some] at ht
        obtain ⟨d', hd', -⟩ := Option.map_eq_some_iff.mp ht
        rw [hd', Option.bind_some, Option.bind_some]
        exact h.methodNamed? hplain hd hd'
    simp only [bind, Except.bind]
    rw [hfound]

theorem index_lt_of_methodNamed? {d : TypeDef} {name : String} {i : MethodId}
    (h : m.methodNamed? d name = some i) : i.index < m.methods.size := by
  by_contra hlt
  have hfound := List.find?_some h
  rw [Module.method?_of_size_le (Nat.le_of_not_lt hlt)] at hfound
  cases hfound

theorem constructorOf_old {typeName : String} {i : MethodId} (h : constructorOf typeName m = .ok i) :
    i.index < m.methods.size := by
  unfold constructorOf at h
  cases ht : m.require typeName with
  | error e =>
    rw [ht] at h
    cases h
  | ok t =>
    rw [ht] at h
    simp only [bind, Except.bind] at h
    split at h
    · rename_i j hfound
      obtain ⟨d, -, hnamed⟩ := Option.bind_eq_some_iff.mp hfound
      obtain rfl := Except.ok.inj h
      exact index_lt_of_methodNamed? hnamed
    · cases h

theorem equalsOf_grown (h : m.Grown m') : equalsOf m' = equalsOf m := by
  have hplain : Plain Surface.equals := plain_of_head (by decide)
  unfold equalsOf
  rw [h.require]
  cases m.require Surface.object with
  | error e => rfl
  | ok object =>
    have hfound : ((m'.methodInLine? object Surface.equals).filter fun i =>
          (m'.method? i).any fun d => d.isStatic && d.params.length == 2)
        = (m.methodInLine? object Surface.equals).filter fun i =>
          (m.method? i).any fun d => d.isStatic && d.params.length == 2 := by
      rw [h.methodInLine? hplain]
      cases hfound : m.methodInLine? object Surface.equals with
      | none => rfl
      | some i =>
        obtain ⟨e, -, hnamed⟩ := List.exists_of_findSome?_eq_some hfound
        rw [Option.filter_some, Option.filter_some,
          h.any_method? (index_lt_of_methodNamed? hnamed) _ fun _ => rfl]
    simp only [bind, Except.bind]
    rw [hfound]

theorem equalsOf_old {i : MethodId} (h : equalsOf m = .ok i) : i.index < m.methods.size := by
  unfold equalsOf at h
  cases ht : m.require Surface.object with
  | error e =>
    rw [ht] at h
    cases h
  | ok object =>
    rw [ht] at h
    simp only [bind, Except.bind] at h
    split at h
    · rename_i j hfound
      obtain ⟨hfound, -⟩ := Option.filter_eq_some_iff.mp hfound
      obtain ⟨e, -, hnamed⟩ := List.exists_of_findSome?_eq_some hfound
      obtain rfl := Except.ok.inj h
      exact index_lt_of_methodNamed? hnamed
    · cases h

theorem refuse_cases {α : Type} (refused : List String) (lookup : String) (find : Module → Except Error α) :
    (refuse refused lookup find = fun _ => .error (.unresolved ("refused " ++ lookup)))
      ∨ refuse refused lookup find = find := by
  by_cases hrefused : refused.contains lookup
  · exact .inl (funext fun _ => if_pos hrefused)
  · exact .inr (funext fun _ => if_neg hrefused)

theorem steady_refusing (refused : List String) (m : Module) : (refusing refused).Steady m := by
  have hsame : ∀ {α : Type} (lookup : String) (find : Module → Except Error α) {m' : Module},
      find m' = find m → refuse refused lookup find m' = refuse refused lookup find m := by
    intro α lookup find m' heq
    rcases refuse_cases refused lookup find with h | h
    · rw [h]
    · rw [h, heq]
  have hold : ∀ (lookup : String) (find : Module → Except Error MethodId) {i : MethodId},
      refuse refused lookup find m = .ok i → find m = .ok i := by
    intro lookup find i hok
    rcases refuse_cases refused lookup find with h | h
    · rw [h] at hok
      cases hok
    · rwa [h] at hok
  exact {
    objectType := fun m' h => hsame _ _ (h.require _)
    objectEquals := fun m' h => hsame _ _ (equalsOf_grown h)
    handlerConstructor := fun m' h => hsame _ _ (constructorOf_grown h _)
    eventArgsType := fun m' h => hsame _ _ (h.require _)
    objectEquals_old := fun i hok => equalsOf_old (hold _ _ hok)
    handlerConstructor_old := fun i hok => constructorOf_old (hold _ _ hok) }

theorem refusing_nil : refusing [] = standard := rfl

theorem steady_standard (m : Module) : standard.Steady m := refusing_nil ▸ steady_refusing [] m

end Resolver

end SetterLoom
