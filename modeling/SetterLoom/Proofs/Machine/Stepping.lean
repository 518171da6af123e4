import SetterLoom.Proofs.Machine.Members

/-!
# Running code, alike

One instruction run in two like frames goes on alike, as long as the calls it makes are alike. The second
frame may have slots of its own behind those of the first one; the code does not know them and leaves them
as they are.

* `like_step`: one instruction.
-/

namespace SetterLoom.Likeness
set_option autoImplicit false

variable {m m' : Module} (L : Likeness m m')

/-- Frames that are alike, the second one with more slots. -/
structure Frames (w : L.World) (rest : List Value) (f f' : Frame) : Prop where
  arguments : List.Forall₂ (L.Values w) f.arguments f'.arguments
  slots : ∃ slots, f'.slots = slots ++ rest ∧ List.Forall₂ (L.Values w) f.slots slots
  stack : List.Forall₂ (L.Values w) f.stack f'.stack

/-- Ways to go on that are alike. -/
inductive Steps (w : L.World) (rest : List Value) : Step → Step → Prop
  | next {f f' : Frame} (h : L.Frames w rest f f') : Steps w rest (.next f) (.next f')
  | jump (l : Label) {f f' : Frame} (h : L.Frames w rest f f') :
    Steps w rest (.jump l f) (.jump l f')
  | done {v v' : Value} (h : L.Values w v v') : Steps w rest (.done v) (.done v')

/-- What code may contain: it stores into fields, points to methods and calls methods only where it is
free to. -/
structure Allowed (op : Op) : Prop where
  field : ∀ f, op.operand = .field f → op.code = .stfld ∨ op.code = .ldflda → L.storable f.token
  method : ∀ u, op.operand = .method u → L.callable u.method
  pointer : ∀ u d, op.operand = .method u → op.code = .ldftn → m.method? u.method = some d →
    L.pointable d.token

variable {L} {w : L.World} {rest : List Value} {f f' : Frame} {d d' : Method}

theorem Frames.of_refs {w' : L.World} (hrefs : ∀ {r r'}, L.refs w r r' → L.refs w' r r')
    (h : L.Frames w rest f f') : L.Frames w' rest f f' := by
  obtain ⟨slots, hslots, hrel⟩ := h.slots
  have hlist : ∀ {vs vs' : List Value}, List.Forall₂ (L.Values w) vs vs' →
      List.Forall₂ (L.Values w') vs vs' := fun hvs => hvs.imp fun _ _ => Worlds.Values.grow hrefs
  exact ⟨hlist h.arguments, ⟨slots, hslots, hlist hrel⟩, hlist h.stack⟩

theorem Frames.mono {w' : L.World} (hle : L.le w w') (h : L.Frames w rest f f') :
    L.Frames w' rest f f' :=
  h.of_refs (L.refs_mono hle)

theorem Frames.push {v v' : Value} (h : L.Frames w rest f f') (hv : L.Values w v v') :
    L.Frames w rest (f.push v) (f'.push v') :=
  ⟨h.arguments, h.slots, .cons hv h.stack⟩

theorem values_defaultOf (t : TypeId) : L.Values w (m.defaultOf t) (m'.defaultOf t) := by
  rw [L.modules.defaultOf]
  unfold Module.defaultOf
  split
  · unfold TypeDef.default
    split
    · exact .int 0
    · exact .int 0
    · exact .int 0
    · exact .struct _
    · exact .null
  · exact .null

theorem getElem?_rel {α β : Type} {r : α → β → Prop} {l : List α} {l' : List β}
    (h : List.Forall₂ r l l') (k : Nat) : Option.Rel r l[k]? l'[k]? := by
  induction h generalizing k with
  | nil => exact .none
  | cons hx _ ih =>
    cases k with
    | zero => exact .some hx
    | succ k => exact ih k

/-! ## The stack -/

theorem like_pop (h : L.Frames w rest f f') :
    L.Like w (fun w x x' => L.Values w x.1 x'.1 ∧ L.Frames w rest x.2 x'.2)
      ((⟨m, d⟩ : Site).pop f) ((⟨m', d'⟩ : Site).pop f') := by
  obtain ⟨arguments, slots, stack⟩ := f
  obtain ⟨arguments', slots', stack'⟩ := f'
  have hstack : List.Forall₂ (L.Values w) stack stack' := h.stack
  unfold Site.pop
  cases hstack with
  | nil => exact .fault
  | cons hv hrest => exact .pure ⟨hv, h.arguments, h.slots, hrest⟩

theorem like_popMany (count : Nat) (h : L.Frames w rest f f') :
    L.Like w (fun w x x' => List.Forall₂ (L.Values w) x.1 x'.1 ∧ L.Frames w rest x.2 x'.2)
      ((⟨m, d⟩ : Site).popMany f count) ((⟨m', d'⟩ : Site).popMany f' count) := by
  have hlen := h.stack.length_eq
  by_cases hle : count ≤ f.stack.length
  · have hle' : count ≤ f'.stack.length := hlen ▸ hle
    simp only [Site.popMany, Frame.popMany?, if_pos hle, if_pos hle']
    refine .pure ⟨?_, h.arguments, h.slots, List.forall₂_drop count h.stack⟩
    exact List.rel_reverse (List.forall₂_take count h.stack)
  · simp only [Site.popMany, Frame.popMany?, if_neg hle]
    exact .fault

theorem like_object {v v' : Value} (h : L.Values w v v') :
    L.Like w (fun w => L.refs w) ((⟨m, d⟩ : Site).object v) ((⟨m', d'⟩ : Site).object v') := by
  cases h with
  | ref hr => exact .pure hr
  | void | int | null | struct | address | function => exact .fault

theorem like_pushFound {code : OpCode} {found found' : Option Value} (h : L.Frames w rest f f')
    (hfound : ∀ v, found = some v → ∃ v', found' = some v' ∧ L.Values w v v') :
    L.Like w (fun w => L.Steps w rest) ((⟨m, d⟩ : Site).pushFound code f found)
      ((⟨m', d'⟩ : Site).pushFound code f' found') := by
  cases found with
  | none => exact .fault
  | some v =>
    obtain ⟨v', rfl, hv⟩ := hfound v rfl
    exact .pure (.next (h.push hv))

/-! ## Slots and fields -/

theorem like_storeSlot (index : Nat) (h : L.Frames w rest f f') :
    L.Like w (fun w => L.Steps w rest) ((⟨m, d⟩ : Site).storeSlot f index)
      ((⟨m', d'⟩ : Site).storeSlot f' index) := by
  refine (like_pop h).bind fun w₁ x x' _ hx => ?_
  obtain ⟨v, g⟩ := x
  obtain ⟨v', g'⟩ := x'
  obtain ⟨hv, hg⟩ := hx
  obtain ⟨slots, hslots, hrel⟩ := hg.slots
  have hslots : g'.slots = slots ++ rest := hslots
  have hrel : List.Forall₂ (L.Values w₁) g.slots slots := hrel
  dsimp only
  split
  · rename_i hlt
    have hlt' : index < slots.length := hrel.length_eq ▸ hlt
    have hbound : index < g'.slots.length := by
      rw [hslots, List.length_append]
      omega
    rw [if_pos hbound]
    refine .pure (.next ⟨hg.arguments, ⟨slots.set index v', ?_, ?_⟩, hg.stack⟩)
    · show g'.slots.set index v' = _
      rw [hslots, List.set_append_left _ _ hlt']
    · refine List.forall₂_iff_get.mpr ⟨?_, fun k hk hk' => ?_⟩
      · rw [List.length_set, List.length_set]
        exact hrel.length_eq
      · rw [List.length_set] at hk hk'
        simp only [List.get_eq_getElem, List.getElem_set]
        split
        · exact hv
        · exact hrel.get hk hk'
  · exact .fault

theorem like_loadField (field : Field) (h : L.Frames w rest f f') :
    L.Like w (fun w => L.Steps w rest) ((⟨m, d⟩ : Site).loadField f field)
      ((⟨m', d'⟩ : Site).loadField f' field) := by
  refine (like_pop h).bind fun w₁ x x' _ hx => ?_
  refine (like_object hx.1).bind fun w₂ r r' hle₂ hr => ?_
  refine (like_heap_getField hr).bind fun w₃ stored stored' hle₃ hstored => .pure ?_
  refine .next ((hx.2.mono (L.le_trans hle₂ hle₃)).push ?_)
  cases hstored with
  | none => exact values_defaultOf field.type
  | some hv => exact hv

theorem like_storeField (field : Field) (hfield : L.storable field.token)
    (h : L.Frames w rest f f') :
    L.Like w (fun w => L.Steps w rest) ((⟨m, d⟩ : Site).storeField f field)
      ((⟨m', d'⟩ : Site).storeField f' field) := by
  refine (like_pop h).bind fun w₁ x x' _ hx => ?_
  refine (like_pop hx.2).bind fun w₂ y y' hle₂ hy => ?_
  refine (like_object hy.1).bind fun w₃ r r' hle₃ hr => ?_
  refine (like_setField hr hfield (values_mono (L.le_trans hle₂ hle₃) hx.1)).bind
    fun w₄ _ _ hle₄ _ => .pure ?_
  exact .next (hy.2.mono (L.le_trans hle₃ hle₄))

theorem like_loadAddress (field : Field) (hfield : L.storable field.token)
    (h : L.Frames w rest f f') :
    L.Like w (fun w => L.Steps w rest) ((⟨m, d⟩ : Site).loadAddress f field)
      ((⟨m', d'⟩ : Site).loadAddress f' field) := by
  refine (like_pop h).bind fun w₁ x x' _ hx => ?_
  refine (like_object hx.1).bind fun w₂ r r' hle₂ hr => .pure ?_
  exact .next ((hx.2.mono hle₂).push (.address hr hfield))

theorem like_initialise (t : TypeId) (h : L.Frames w rest f f') :
    L.Like w (fun w => L.Steps w rest) ((⟨m, d⟩ : Site).initialise f t)
      ((⟨m', d'⟩ : Site).initialise f' t) := by
  refine (like_pop h).bind fun w₁ x x' _ hx => ?_
  obtain ⟨v, g⟩ := x
  obtain ⟨v', g'⟩ := x'
  obtain ⟨hv, hg⟩ := hx
  have hv : L.Values w₁ v v' := hv
  cases hv with
  | address hr hfield =>
    refine (like_setField hr hfield (values_defaultOf t)).bind fun w₂ _ _ hle₂ _ => .pure ?_
    exact .next (hg.mono hle₂)
  | void | int | null | struct | ref | function => exact .fault

theorem like_boxTop (t : TypeId) (h : L.Frames w rest f f') :
    L.Like w (fun w => L.Steps w rest) ((⟨m, d⟩ : Site).boxTop f t)
      ((⟨m', d'⟩ : Site).boxTop f' t) := by
  refine (like_pop h).bind fun w₁ x x' _ hx => ?_
  simp only [L.modules.type?]
  split
  · rename_i type _
    refine (like_alloc (.boxed type.token hx.1) nofun nofun).bind fun w₂ r r' hle₂ hr => .pure ?_
    exact .next ((hx.2.mono hle₂).push (.ref hr))
  · exact .pure (.next (hx.2.push hx.1))

/-! ## Calls -/

theorem like_loadFunction {i : MethodId} (hi : L.callable i)
    (hpointer : ∀ d, m.method? i = some d → L.pointable d.token) (h : L.Frames w rest f f') :
    L.Like w (fun w => L.Steps w rest) ((⟨m, d⟩ : Site).loadFunction f i)
      ((⟨m', d'⟩ : Site).loadFunction f' i) := by
  unfold Site.loadFunction
  dsimp only
  cases hc : m.method? i with
  | none => exact .fault
  | some c =>
    obtain ⟨c', hc', hsignature⟩ := L.modules.method? hc
    simp only [hc', Module.Alike.token_eq hsignature]
    refine (like_load hi hc).bind fun w₁ _ _ hle₁ _ => .pure ?_
    exact .next ((h.mono hle₁).push (.function (hpointer c hc)))

variable {call call' : Call}

theorem like_newObject (hcall : L.Calls call call') {i : MethodId} (hi : L.callable i)
    (h : L.Frames w rest f f') :
    L.Like w (fun w => L.Steps w rest) ((⟨m, d⟩ : Site).newObject call f i)
      ((⟨m', d'⟩ : Site).newObject call' f' i) := by
  unfold Site.newObject
  dsimp only
  cases hc : m.method? i with
  | none => exact .fault
  | some c =>
    obtain ⟨c', hc', hsignature⟩ := L.modules.method? hc
    simp only [hc', Module.Alike.params_eq hsignature]
    refine (like_popMany c.params.length h).bind fun w₁ x x' _ hx => ?_
    refine (like_construct hcall hi hx.1).bind fun w₂ v v' hle₂ hv => .pure ?_
    exact .next ((hx.2.mono hle₂).push hv)

theorem like_callOnObject (hcall : L.Calls call call') {i : MethodId} {c c' : Method}
    (hi : L.callable i) (hc : m.method? i = some c) (hsignature : c'.signature = c.signature)
    {r r' : HeapRef} {args args' : List Value} (hr : L.refs w r r')
    (h : List.Forall₂ (L.Values w) args args') :
    L.Like w (fun w => L.Values w) ((⟨m, d⟩ : Site).callOnObject call i c r args)
      ((⟨m', d'⟩ : Site).callOnObject call' i c' r' args') := by
  refine (like_heap_get hr).bind fun w₁ o o' hle₁ ho => ?_
  have hr₁ := L.refs_mono hle₁ hr
  have h₁ := list_mono hle₁ h
  have hdelegate : o'.isDelegate = o.isDelegate := by cases ho <;> rfl
  simp only [Module.Alike.name_eq hsignature, hdelegate]
  split
  · exact (like_invokeDelegate hcall hr₁ h₁).bind fun w₂ _ _ _ _ => .pure .void
  · refine (like_dispatch hr₁ hi hc hsignature).bind fun w₂ j j' hle₂ hj => ?_
    obtain ⟨rfl, hcallable⟩ := hj
    exact hcall hcallable (.some (.ref (L.refs_mono hle₂ hr₁))) (list_mono hle₂ h₁)

theorem like_callOn (hcall : L.Calls call call') {code : OpCode} {i : MethodId} {c c' : Method}
    (hi : L.callable i) (hc : m.method? i = some c) (hsignature : c'.signature = c.signature)
    {this this' : Value} {args args' : List Value} (hthis : L.Values w this this')
    (h : List.Forall₂ (L.Values w) args args') :
    L.Like w (fun w => L.Values w) ((⟨m, d⟩ : Site).callOn call code i c this args)
      ((⟨m', d'⟩ : Site).callOn call' code i c' this' args') := by
  have hplain := hcall hi (.some hthis) h
  unfold Site.callOn
  by_cases hcode : code = .callvirt
  · subst hcode
    cases hthis with
    | ref hr => exact like_callOnObject hcall hi hc hsignature hr h
    | null => exact .fault
    | void | int | struct | address | function => exact hplain
  · cases code with
    | callvirt => exact absurd rfl hcode
    | _ => exact hplain

theorem like_callMethod (hcall : L.Calls call call') {code : OpCode} {i : MethodId}
    (hi : L.callable i) (h : L.Frames w rest f f') :
    L.Like w (fun w => L.Steps w rest) ((⟨m, d⟩ : Site).callMethod call f code i)
      ((⟨m', d'⟩ : Site).callMethod call' f' code i) := by
  unfold Site.callMethod
  dsimp only
  cases hc : m.method? i with
  | none => exact .fault
  | some c =>
    obtain ⟨c', hc', hsignature⟩ := L.modules.method? hc
    simp only [hc', Module.Alike.params_eq hsignature, Module.Alike.isStatic_eq hsignature,
      Module.Alike.returns_eq hsignature]
    have hresult : ∀ {w₁ v v' g g'}, L.Values w₁ v v' → L.Frames w₁ rest g g' →
        L.Steps w₁ rest (.next (if c.returns.isSome then g.push v else g))
          (.next (if c.returns.isSome then g'.push v' else g')) := by
      intro w₁ v v' g g' hv hg
      split
      · exact .next (hg.push hv)
      · exact .next hg
    refine (like_popMany c.params.length h).bind fun w₁ x x' _ hx => ?_
    split
    · refine (hcall hi .none hx.1).bind fun w₂ v v' hle₂ hv => .pure ?_
      exact hresult hv (hx.2.mono hle₂)
    · refine (like_pop hx.2).bind fun w₂ y y' hle₂ hy => ?_
      refine (like_callOn hcall hi hc hsignature hy.1 (list_mono hle₂ hx.1)).bind
        fun w₃ v v' hle₃ hv => .pure ?_
      exact hresult hv (hy.2.mono hle₃)

/-! ## Branches and the rest -/

theorem truth_eq {v v' : Value} (h : L.Values w v v') : v'.truth = v.truth := by
  cases h <;> rfl

theorem like_branchIf (truth : Bool) (label : Label) (h : L.Frames w rest f f') :
    L.Like w (fun w => L.Steps w rest) ((⟨m, d⟩ : Site).branchIf f truth label)
      ((⟨m', d'⟩ : Site).branchIf f' truth label) := by
  refine (like_pop h).bind fun w₁ x x' _ hx => .pure ?_
  rw [truth_eq hx.1]
  split
  · exact .jump label hx.2
  · exact .next hx.2

theorem like_compareTop (h : L.Frames w rest f f') :
    L.Like w (fun w => L.Steps w rest) ((⟨m, d⟩ : Site).compareTop f)
      ((⟨m', d'⟩ : Site).compareTop f') := by
  refine (like_pop h).bind fun w₁ x x' _ hx => ?_
  refine (like_pop hx.2).bind fun w₂ y y' hle₂ hy => ?_
  refine .of_state fun s s' hs => .pure (.next (hy.2.push ?_))
  have hsame := values_eq_iff hs hy.1 (values_mono hle₂ hx.1)
  simp only [hsame]
  exact .int _

theorem like_duplicate (h : L.Frames w rest f f') :
    L.Like w (fun w => L.Steps w rest) ((⟨m, d⟩ : Site).duplicate f)
      ((⟨m', d'⟩ : Site).duplicate f') :=
  (like_pop h).bind fun _ _ _ _ hx => .pure (.next ((hx.2.push hx.1).push hx.1))

theorem like_dropTop (h : L.Frames w rest f f') :
    L.Like w (fun w => L.Steps w rest) ((⟨m, d⟩ : Site).dropTop f)
      ((⟨m', d'⟩ : Site).dropTop f') :=
  (like_pop h).bind fun _ _ _ _ hx => .pure (.next hx.2)

theorem like_returnTop (hsignature : d'.signature = d.signature) (h : L.Frames w rest f f') :
    L.Like w (fun w => L.Steps w rest) ((⟨m, d⟩ : Site).returnTop f)
      ((⟨m', d'⟩ : Site).returnTop f') := by
  unfold Site.returnTop
  rw [Module.Alike.returns_eq hsignature]
  split
  · exact (like_pop h).bind fun _ _ _ _ hx => .pure (.done hx.1)
  · exact .pure (.done .void)

/-! ## One instruction -/

theorem like_step (hcall : L.Calls call call') (hsignature : d'.signature = d.signature)
    {op : Op} (hop : L.Allowed op) (h : L.Frames w rest f f') :
    L.Like w (fun w => L.Steps w rest) ((⟨m, d⟩ : Site).step call op f)
      ((⟨m', d'⟩ : Site).step call' op f') := by
  obtain ⟨slots, hslots, hrel⟩ := h.slots
  have hargument : ∀ (k : Nat) v, f.arguments[k]? = some v →
      ∃ v', f'.arguments[k]? = some v' ∧ L.Values w v v' := by
    intro k v hv
    have hk := getElem?_rel h.arguments k
    rw [hv] at hk
    generalize hg : f'.arguments[k]? = found at hk
    cases hk with
    | some hr => exact ⟨_, rfl, hr⟩
  have hslot : ∀ (k : Nat) v, f.slots[k]? = some v → ∃ v', f'.slots[k]? = some v' ∧ L.Values w v v' := by
    intro k v hv
    have hk := getElem?_rel hrel k
    rw [hv] at hk
    generalize hg : slots[k]? = found at hk
    cases hk with
    | some hr =>
      have hlt : k < slots.length := (List.getElem?_eq_some_iff.mp hg).1
      exact ⟨_, by rw [hslots, List.getElem?_append_left hlt, hg], hr⟩
  -- one case for each kind of operation; only those that store, point or call ask for leave
  induction op using Op.forms with
  | nop => exact .pure (.next h)
  | ldnull => exact .pure (.next (h.push .null))
  | ldcI4 n => exact .pure (.next (h.push (.int n)))
  | ceq => exact like_compareTop h
  | dup => exact like_duplicate h
  | pop => exact like_dropTop h
  | ret => exact like_returnTop hsignature h
  | ldarg k => exact like_pushFound h (hargument k.toNat)
  | ldloc k => exact like_pushFound h (hslot k.toNat)
  | stloc k => exact like_storeSlot k.toNat h
  | ldstr text => exact (like_allocString text).map fun _ _ _ hle hv => .next ((h.mono hle).push hv)
  | ldfld field => exact like_loadField field h
  | stfld field => exact like_storeField field (hop.field field rfl (.inl rfl)) h
  | ldflda field => exact like_loadAddress field (hop.field field rfl (.inr rfl)) h
  | initobj t => exact like_initialise t h
  | box t => exact like_boxTop t h
  | ldftn u => exact like_loadFunction (hop.method u rfl) (fun c hc => hop.pointer u c rfl rfl hc) h
  | newobj u => exact like_newObject hcall (hop.method u rfl) h
  | call u | callvirt u => exact like_callMethod hcall (hop.method u rfl) h
  | br l => exact .pure (.jump l h)
  | brtrue l | brfalse l => exact like_branchIf _ l h
  | stuck op hstuck =>
    rw [hstuck]
    exact .fault

end SetterLoom.Likeness
