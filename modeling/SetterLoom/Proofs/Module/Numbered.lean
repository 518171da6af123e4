import SetterLoom.Module.External
import SetterLoom.Proofs.Module.Declared
import SetterLoom.Proofs.Module.Drawn

/-!
# Entries and their tokens

A type takes the next row of its table when it is added to a module, and so does a method. Rows may also be
drawn for nothing. While the rows last, types and methods ascend by their tokens as they were added, and every
type is registered under its own token.

* `Ascending`: tokens of entries in the order of their places.
* `Module.Numbered`: a module in which all rows are accounted for.
* `Module.Continues`: steps that keep that and the tokens of all entries.
* `Declare.continuing_runtimeSurface`, `TypeSpec.continuing_declare`: declarations are such steps.
-/

namespace SetterLoom
set_option autoImplicit false

/-- Entries at some places have tokens with rows up to a last one, which ascend from place to place. -/
structure Ascending (table : Table) (tokens : Nat → Option Token) (last : Nat) : Prop where
  drawn : ∀ i k, tokens i = some k → ∃ row, 0 < row ∧ row ≤ last ∧ k = .ofRow table (.ofNat row)
  ordered : ∀ i j k l, i < j → tokens i = some k → tokens j = some l → k.value < l.value

namespace Ascending

variable {table : Table} {tokens : Nat → Option Token} {last last' : Nat} {i j : Nat} {k l : Token}

theorem mono (h : Ascending table tokens last) (hle : last ≤ last') : Ascending table tokens last' :=
  ⟨fun i k hk => have ⟨row, hpos, hrow, heq⟩ := h.drawn i k hk
    ⟨row, hpos, Nat.le_trans hrow hle, heq⟩, h.ordered⟩

theorem injective (h : Ascending table tokens last) (hi : tokens i = some k) (hj : tokens j = some k) : i = j := by
  rcases Nat.lt_trichotomy i j with hlt | heq | hlt
  · exact absurd (h.ordered i j k k hlt hi hj) (UInt32.lt_irrefl _)
  · exact heq
  · exact absurd (h.ordered j i k k hlt hj hi) (UInt32.lt_irrefl _)

theorem ofRow_lt_ofRow {row row' : Nat} (hlt : row < row') (hfit : row' < Token.rowLimit) :
    (Token.ofRow table (.ofNat row)).value < (Token.ofRow table (.ofNat row')).value := by
  rw [UInt32.lt_iff_toNat_lt, Token.toNat_ofRow, Token.toNat_ofRow, UInt32.toNat_ofNat', UInt32.toNat_ofNat']
  simp only [Token.rowLimit] at hfit ⊢
  omega

theorem push (h : Ascending table tokens last) {n : Nat} (hplaces : ∀ i, n ≤ i → tokens i = none)
    (hfit : last + 1 < Token.rowLimit) :
    Ascending table (fun i => if i = n then some (.ofRow table (.ofNat (last + 1))) else tokens i) (last + 1) := by
  refine ⟨fun i k hk => ?_, fun i j k l hij hk hl => ?_⟩
  · split at hk
    · exact ⟨last + 1, Nat.succ_pos last, Nat.le_refl _, (Option.some.inj hk).symm⟩
    · obtain ⟨row, hpos, hrow, rfl⟩ := h.drawn i k hk
      exact ⟨row, hpos, Nat.le_succ_of_le hrow, rfl⟩
  · split at hk
    · rename_i hi
      have hnone : tokens j = none := hplaces j (by omega)
      rw [if_neg (by omega), hnone] at hl
      cases hl
    · split at hl
      · obtain ⟨row, -, hrow, rfl⟩ := h.drawn i k hk
        obtain rfl := Option.some.inj hl
        exact ofRow_lt_ofRow (Nat.lt_succ_of_le hrow) hfit
      · exact h.ordered i j k l hij hk hl

end Ascending

namespace Module

/-- The token of the type at a place. -/
def typeToken? (m : Module) (i : Nat) : Option Token := (m.type? ⟨i⟩).map (·.token)

/-- The token of the method at a place. -/
def methodToken? (m : Module) (i : Nat) : Option Token := (m.method? ⟨i⟩).map (·.token)

/-- The number of rows of the table of types, if some were drawn for nothing. -/
def typeRows (m : Module) (spare : Table → Nat) : Nat := m.types.size + spare .typeDef

/-- The number of rows of the table of methods, if some were drawn for nothing. -/
def methodRows (m : Module) (spare : Table → Nat) : Nat := m.methods.size + spare .methodDef

/-- The rows of types and methods are those of its entries and those that were drawn for nothing. While they
last, the entries ascend, and types are registered under their tokens. -/
structure Numbered (spare : Table → Nat) (m : Module) : Prop where
  typeRow : m.rows.typeDef = .ofNat (m.typeRows spare)
  methodRow : m.rows.methodDef = .ofNat (m.methodRows spare)
  types : m.typeRows spare < Token.rowLimit → Ascending .typeDef m.typeToken? (m.typeRows spare)
  registered : m.typeRows spare < Token.rowLimit →
    ∀ i k, m.typeToken? i = some k → m.registry.get? k = some ⟨i⟩
  methods : m.methodRows spare < Token.rowLimit → Ascending .methodDef m.methodToken? (m.methodRows spare)

/-- A later module: the entries have their tokens still, and if all rows were accounted for they are so now. -/
structure Continues (m m' : Module) : Prop where
  types : ∀ i k, m.typeToken? i = some k → m'.typeToken? i = some k
  methods : ∀ i k, m.methodToken? i = some k → m'.methodToken? i = some k
  typeSize : m.types.size ≤ m'.types.size
  methodSize : m.methods.size ≤ m'.methods.size
  numbered : ∀ spare, Numbered spare m → Numbered spare m'

variable {m m' m'' : Module} {spare : Table → Nat}

theorem Continues.refl (m : Module) : m.Continues m :=
  ⟨fun _ _ => id, fun _ _ => id, Nat.le_refl _, Nat.le_refl _, fun _ => id⟩

theorem Continues.trans (h : m.Continues m') (h' : m'.Continues m'') : m.Continues m'' where
  types i k hk := h'.types i k (h.types i k hk)
  methods i k hk := h'.methods i k (h.methods i k hk)
  typeSize := Nat.le_trans h.typeSize h'.typeSize
  methodSize := Nat.le_trans h.methodSize h'.methodSize
  numbered spare hm := h'.numbered spare (h.numbered spare hm)

/-! ## Edits -/

/-- No entry was added, none has another token, and no row was drawn for one. -/
structure Retouched (m m' : Module) : Prop where
  types : m'.typeToken? = m.typeToken?
  methods : m'.methodToken? = m.methodToken?
  typeSize : m'.types.size = m.types.size
  methodSize : m'.methods.size = m.methods.size
  registry : m'.registry = m.registry
  typeRow : m'.rows.typeDef = m.rows.typeDef
  methodRow : m'.rows.methodDef = m.rows.methodDef

theorem Retouched.trans (h : m.Retouched m') (h' : m'.Retouched m'') : m.Retouched m'' :=
  ⟨h'.types.trans h.types, h'.methods.trans h.methods, h'.typeSize.trans h.typeSize,
    h'.methodSize.trans h.methodSize, h'.registry.trans h.registry, h'.typeRow.trans h.typeRow,
    h'.methodRow.trans h.methodRow⟩

theorem Retouched.continues (h : m.Retouched m') : m.Continues m' where
  types i k hk := by rw [h.types, hk]
  methods i k hk := by rw [h.methods, hk]
  typeSize := Nat.le_of_eq h.typeSize.symm
  methodSize := Nat.le_of_eq h.methodSize.symm
  numbered spare hm := by
    have htypes : m'.typeRows spare = m.typeRows spare := by rw [typeRows, h.typeSize, typeRows]
    have hmethods : m'.methodRows spare = m.methodRows spare := by rw [methodRows, h.methodSize, methodRows]
    refine ⟨?_, ?_, ?_, ?_, ?_⟩
    · rw [h.typeRow, htypes, hm.typeRow]
    · rw [h.methodRow, hmethods, hm.methodRow]
    · rw [htypes, h.types]
      exact hm.types
    · rw [htypes, h.types, h.registry]
      exact hm.registered
    · rw [hmethods, h.methods]
      exact hm.methods

theorem retouched_updateType (m : Module) (t : TypeId) {f : TypeDef → TypeDef} (hf : ∀ d, (f d).token = d.token) :
    m.Retouched (m.updateType t f) := by
  refine ⟨funext fun i => ?_, rfl, Array.size_modify .., rfl, rfl, rfl, rfl⟩
  rw [typeToken?, type?_updateType]
  split
  · rw [Option.map_map]
    exact congrFun (congrArg Option.map (funext hf)) _
  · rfl

theorem retouched_updateMethod (m : Module) (i : MethodId) {f : Method → Method}
    (hf : ∀ d, (f d).token = d.token) : m.Retouched (m.updateMethod i f) := by
  refine ⟨rfl, funext fun j => ?_, rfl, Array.size_modify .., rfl, rfl, rfl⟩
  rw [methodToken?, method?_updateMethod]
  split
  · rw [Option.map_map]
    exact congrFun (congrArg Option.map (funext hf)) _
  · rfl

theorem retouched_of_entries (htypes : m'.types = m.types) (hmethods : m'.methods = m.methods)
    (hregistry : m'.registry = m.registry) (htype : m'.rows.typeDef = m.rows.typeDef)
    (hmethod : m'.rows.methodDef = m.rows.methodDef) : m.Retouched m' := by
  refine ⟨?_, ?_, by rw [htypes], by rw [hmethods], hregistry, htype, hmethod⟩
  · funext i
    rw [typeToken?, type?, htypes, typeToken?, type?]
  · funext i
    rw [methodToken?, method?, hmethods, methodToken?, method?]

theorem retouched_attachMethod (m : Module) (t : TypeId) (i : MethodId) : m.Retouched (m.attachMethod t i) := by
  unfold attachMethod
  refine Retouched.trans ?_ (retouched_updateType _ t fun _ => rfl)
  exact retouched_updateMethod m i fun _ => rfl

theorem retouched_attachField (m : Module) (t : TypeId) (f : Field) : m.Retouched (m.attachField t f) :=
  (retouched_of_entries rfl rfl rfl rfl rfl : m.Retouched { m with owners := m.owners.insertNew f.token t }).trans
    (retouched_updateType _ t fun _ => rfl)

theorem retouched_attachProperty (m : Module) (t : TypeId) (p : Property) : m.Retouched (m.attachProperty t p) :=
  (retouched_of_entries rfl rfl rfl rfl rfl : m.Retouched { m with owners := m.owners.insertNew p.token t }).trans
    (retouched_updateType _ t fun _ => rfl)

theorem retouched_attachEvent (m : Module) (t : TypeId) (e : Event) : m.Retouched (m.attachEvent t e) :=
  retouched_updateType m t fun _ => rfl

theorem retouched_drawToken (m : Module) {table : Table} (htype : table ≠ .typeDef) (hmethod : table ≠ .methodDef) :
    m.Retouched (m.drawToken table).2 := by
  refine retouched_of_entries rfl rfl rfl ?_ ?_
  · exact (RowCounts.get_bump m.rows table .typeDef).trans (if_neg htype.symm)
  · exact (RowCounts.get_bump m.rows table .methodDef).trans (if_neg hmethod.symm)

/-! ## Entries that are added -/

theorem typeToken?_of_le {i : Nat} (hi : m.types.size ≤ i) : m.typeToken? i = none := by
  rw [typeToken?, type?, Array.getElem?_eq_none hi]
  rfl

theorem methodToken?_of_le {i : Nat} (hi : m.methods.size ≤ i) : m.methodToken? i = none := by
  rw [methodToken?, method?, Array.getElem?_eq_none hi]
  rfl

theorem ofNat_succ (n : Nat) : UInt32.ofNat n + 1 = .ofNat (n + 1) := by
  rw [UInt32.ofNat_add]
  rfl

theorem continues_addMethod (m : Module) {d : Method} (hd : d.token = (m.drawToken .methodDef).1) :
    m.Continues ((m.drawToken .methodDef).2.addMethod d).2 := by
  have hmethod : ∀ i, ((m.drawToken .methodDef).2.addMethod d).2.methodToken? i
      = if i = m.methods.size then some d.token else m.methodToken? i := by
    intro i
    show ((m.methods.push (some d))[i]?).join.map _ = _
    rw [Array.getElem?_push]
    split <;> rfl
  have hsize : ((m.drawToken .methodDef).2.addMethod d).2.methods.size = m.methods.size + 1 := Array.size_push ..
  refine ⟨fun _ _ => id, fun i k hk => ?_, Nat.le_refl _, by rw [hsize]; exact Nat.le_succ _, fun spare hm => ?_⟩
  · rw [hmethod, if_neg fun hi => ?_, hk]
    rw [methodToken?_of_le (Nat.le_of_eq hi.symm)] at hk
    cases hk
  · have hrows : ((m.drawToken .methodDef).2.addMethod d).2.methodRows spare = m.methodRows spare + 1 := by
      rw [methodRows, hsize, methodRows, Nat.add_right_comm]
    refine ⟨hm.typeRow, ?_, hm.types, hm.registered, fun hfit => ?_⟩
    · show m.rows.methodDef + 1 = _
      rw [hrows, hm.methodRow, ofNat_succ]
    · rw [hrows] at hfit ⊢
      have htoken : d.token = .ofRow .methodDef (.ofNat (m.methodRows spare + 1)) := by
        rw [hd, ← ofNat_succ, ← hm.methodRow]
        rfl
      have hpush := (hm.methods (Nat.lt_of_succ_lt hfit)).push (n := m.methods.size)
        (fun _ => methodToken?_of_le) hfit
      rw [← htoken] at hpush
      rwa [funext hmethod]

theorem continues_addType (m : Module) {d : TypeDef} (hd : d.token = (m.drawToken .typeDef).1) :
    m.Continues (((m.drawToken .typeDef).2.addType d).2.register ⟨m.types.size⟩) := by
  have hnew : ((m.drawToken .typeDef).2.addType d).2.type? ⟨m.types.size⟩ = some d :=
    (m.drawToken .typeDef).2.type?_addType_new d
  rw [register_of_some hnew]
  let m' : Module := { ((m.drawToken .typeDef).2.addType d).2 with
    registry := m.registry.insert d.token d.fullName ⟨m.types.size⟩ }
  show m.Continues m'
  have htype : ∀ i, m'.typeToken? i = if i = m.types.size then some d.token else m.typeToken? i := by
    intro i
    show ((m.types.push (some d))[i]?).join.map _ = _
    rw [Array.getElem?_push]
    split <;> rfl
  have hsize : m'.types.size = m.types.size + 1 := Array.size_push ..
  refine ⟨fun i k hk => ?_, fun _ _ => id, by rw [hsize]; exact Nat.le_succ _, Nat.le_refl _, fun spare hm => ?_⟩
  · rw [htype, if_neg fun hi => ?_, hk]
    rw [typeToken?_of_le (Nat.le_of_eq hi.symm)] at hk
    cases hk
  · have hrows : m'.typeRows spare = m.typeRows spare + 1 := by
      rw [typeRows, hsize, typeRows, Nat.add_right_comm]
    have hascending (hfit : m'.typeRows spare < Token.rowLimit) :
        Ascending .typeDef m'.typeToken? (m'.typeRows spare) := by
      rw [hrows] at hfit ⊢
      have htoken : d.token = .ofRow .typeDef (.ofNat (m.typeRows spare + 1)) := by
        rw [hd, ← ofNat_succ, ← hm.typeRow]
        rfl
      have hpush := (hm.types (Nat.lt_of_succ_lt hfit)).push (n := m.types.size) (fun _ => typeToken?_of_le) hfit
      rw [← htoken] at hpush
      rwa [funext htype]
    refine ⟨?_, hm.methodRow, hascending, fun hfit i k hk => ?_, hm.methods⟩
    · show m.rows.typeDef + 1 = _
      rw [hrows, hm.typeRow, ofNat_succ]
    · show (m.registry.insert d.token d.fullName ⟨m.types.size⟩).get? k = some ⟨i⟩
      rw [Registry.get?_insert]
      by_cases hi : i = m.types.size
      · rw [htype, if_pos hi] at hk
        rw [if_pos (Option.some.inj hk).symm, hi]
      · -- another type has another token
        have hlast : m'.typeToken? m.types.size = some d.token := by rw [htype, if_pos rfl]
        rw [if_neg fun heq : k = d.token => hi ((hascending hfit).injective (heq ▸ hk) hlast)]
        rw [htype, if_neg hi] at hk
        exact hm.registered (by omega) i k hk

end Module

/-! ## Declarations -/

theorem MethodSpec.continues_declare (s : MethodSpec) (m : Module) : m.Continues (s.declare m).2 :=
  m.continues_addMethod rfl

theorem MethodSpec.continues_declareOn (s : MethodSpec) (t : TypeId) (m : Module) :
    m.Continues (s.declareOn t m).2 :=
  (s.continues_declare m).trans (Module.retouched_attachMethod _ t _).continues

namespace Declare

variable {α β : Type} {t : TypeId}

/-- Every run of the steps leads to a later module. -/
abbrev Continuing (x : Declare α) : Prop := Steps.Within Module.Continues x

theorem Continuing.bind {x : Declare α} {f : α → Declare β} (hx : Continuing x) (hf : ∀ a, Continuing (f a)) :
    Continuing (x >>= f) :=
  Steps.within_bind (R := Module.Continues) (fun h h' => h.trans h') hx hf

theorem continuing_pure (a : α) : Continuing (pure a : Declare α) := Steps.within_pure Module.Continues.refl a

theorem continuing_retouch {f : Module → α × Module} (hf : ∀ m : Module, m.Retouched (f m).2) : Continuing (step f) :=
  fun m => (hf m).continues

theorem continuing_change {f : Module → Module} (hf : ∀ m : Module, m.Retouched (f m)) : Continuing (change f) :=
  fun m => (hf m).continues

theorem continuing_require (fullName : String) : Continuing (require fullName) := Module.Continues.refl

theorem continuing_member (t : TypeId) : MemberRule t Continuing where
  bind := .bind
  pure := continuing_pure
  drawToken _ htype hmethod := continuing_retouch fun m => m.retouched_drawToken htype hmethod
  drawLabels _ := continuing_retouch fun _ => Module.retouched_of_entries rfl rfl rfl rfl rfl
  methodOn s := s.continues_declareOn t
  attachField f := continuing_change fun m => m.retouched_attachField t f
  attachProperty p := continuing_change fun m => m.retouched_attachProperty t p
  attachEvent e := continuing_change fun m => m.retouched_attachEvent t e

theorem continuing_memberOn (x : MemberSpec) : Continuing (memberOn t x) := by
  have hdiscard : ∀ {α : Type} {x : Declare α}, Continuing x → Continuing (discard x) := fun hx =>
    hx.bind fun _ => continuing_pure _
  have hmember := continuing_member t
  cases x with
  | field name type => exact hdiscard (hmember.fieldOn _ _ _)
  | property p => exact hdiscard (hmember.propertyOn p)
  | method s => exact hdiscard (hmember.methodOn s)
  | changedEvent =>
    exact hdiscard ((continuing_require _).bind fun _ => (hmember.fieldOn _ _ _).bind fun _ =>
      hmember.eventOn _ _)

theorem continuing_bareType (space name : String) (flavor : Flavor) (external : Bool) (base : Option TypeId) :
    Continuing (bareType space name flavor external base) :=
  fun m => m.continues_addType rfl

theorem continuing_constructorOn (params : List Param) (body : Option Body) :
    Continuing (constructorOn t params body) :=
  (continuing_member t).methodOn _

theorem continuing_eventArgs (object string : TypeId) : Continuing (eventArgs object string) :=
  (continuing_bareType _ _ _ _ _).bind fun args =>
    have hmember := continuing_member args
    (hmember.fieldOn _ _ _).bind fun _ => (hmember.bodyOf _).bind fun _ =>
      (continuing_constructorOn _ _).bind fun _ => (hmember.bodyOf _).bind fun _ =>
        (hmember.methodOn _).bind fun _ => continuing_pure _

theorem continuing_eventHandler (object nativeInt delegate args : TypeId) :
    Continuing (eventHandler object nativeInt delegate args) :=
  (continuing_bareType _ _ _ _ _).bind fun handler => (continuing_constructorOn _ _).bind fun _ =>
    ((continuing_member handler).methodOn _).bind fun _ => continuing_pure _

theorem continuing_runtimeSurface : Continuing runtimeSurface := by
  have htype (space name : String) (flavor : Flavor) (base : Option TypeId) :
      Continuing (externalType space name flavor base) := continuing_bareType _ _ _ _ _
  refine (htype _ _ _ _).bind fun object => (htype _ _ _ _).bind fun valueType => ?_
  refine (htype _ _ _ _).bind fun string => (htype _ _ _ _).bind fun boolean => ?_
  refine (htype _ _ _ _).bind fun _ => (htype _ _ _ _).bind fun nativeInt => ?_
  refine (htype _ _ _ _).bind fun _ => (htype _ _ _ _).bind fun delegate => ?_
  refine ((continuing_member object).bodyOf _).bind fun _ => (continuing_constructorOn _ _).bind fun _ => ?_
  refine ((continuing_member object).methodOn _).bind fun _ => (continuing_eventArgs _ _).bind fun args => ?_
  refine (continuing_eventHandler _ _ _ _).bind fun handler => (htype _ _ _ _).bind fun notify => ?_
  refine ((continuing_member notify).eventOn _ _).bind fun _ => (htype _ _ _ _).bind fun content => ?_
  exact continuing_change fun m => m.retouched_updateType content fun _ => rfl

end Declare

/-- Declaring a type leads to a later module, also if it fails. -/
theorem TypeSpec.continuing_declare (s : TypeSpec) : Declare.Continuing s.declare := by
  have hbase : Declare.Continuing s.baseType := fun m => by
    rw [baseType_run]
    exact .refl m
  refine hbase.bind fun base => (Declare.continuing_bareType _ _ _ _ _).bind fun t => ?_
  refine Declare.Continuing.bind (Declare.continuing_change fun m => ?_) fun _ => ?_
  · exact m.retouched_updateType t fun _ => rfl
  · exact Declare.Continuing.bind (Steps.within_forM Module.Continues.refl (fun h h' => h.trans h')
      (fun x => Declare.continuing_memberOn x) _) fun _ => Declare.continuing_pure _

end SetterLoom
