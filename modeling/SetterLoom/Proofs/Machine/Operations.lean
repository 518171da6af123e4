import SetterLoom.Proofs.Machine.Interleaved
import SetterLoom.Proofs.Machine.Likeness

/-!
# Operations of woven code

What the operations do that woven code is made of, given what they find on the stack and in the heap.
Most of them only count; these are plain. The others look at an object, or store into one.

* `runs_plain`: a plain operation in front of others.
* `step_ldfld`, `step_stfld`, `step_box`: a field of an object, and a value in a box.
-/

namespace SetterLoom
set_option autoImplicit false

namespace Machine

/-- The state after some more instructions. -/
def spent (s : Machine) (count : Nat) : Machine := { s with executed := s.executed + count }

end Machine

namespace Site

variable {c : Site} {call : Call} {f g h : Frame} {s t u : Machine} {op : Op} {ops : List Op}

theorem does_iff {result : Except Error Step} {u : Machine} {way : Step}
    (hstep : (c.step call op f).run.run (s.spent 1) = (result, u)) :
    c.Does call op f s way t ↔ s.executed < s.limit ∧ result = .ok way ∧ u = t := by
  have hcounted : ({ s with executed := s.executed + 1 } : Machine) = s.spent 1 := rfl
  rw [Does, hcounted, hstep, Prod.mk.injEq]

theorem runs_nil : c.Runs call [] f s g t ↔ g = f ∧ t = s := by
  constructor
  · intro hruns
    cases hruns
    exact ⟨rfl, rfl⟩
  · rintro ⟨rfl, rfl⟩
    exact .nil _ _

theorem runs_cons : c.Runs call (op :: ops) f s h u
    ↔ ∃ g t, c.Does call op f s (.next g) t ∧ c.Runs call ops g t h u := by
  constructor
  · intro hruns
    cases hruns with
    | cons hdoes hrest => exact ⟨_, _, hdoes, hrest⟩
  · rintro ⟨g, t, hdoes, hrest⟩
    exact .cons hdoes hrest

theorem runs_append {ops' : List Op} : c.Runs call (ops ++ ops') f s h u
    ↔ ∃ g t, c.Runs call ops f s g t ∧ c.Runs call ops' g t h u :=
  ⟨Runs.split, fun ⟨_, _, hfront, hback⟩ => hfront.append hback⟩

theorem runs_cons_of_step {u' : Machine}
    (hstep : (c.step call op f).run.run (s.spent 1) = (.ok (.next g), u')) :
    c.Runs call (op :: ops) f s h u ↔ s.executed < s.limit ∧ c.Runs call ops g u' h u := by
  rw [runs_cons]
  constructor
  · rintro ⟨g', t, hdoes, hrest⟩
    obtain ⟨hroom, hway, rfl⟩ := (does_iff hstep).mp hdoes
    cases hway
    exact ⟨hroom, hrest⟩
  · rintro ⟨hroom, hrest⟩
    exact ⟨g, u', (does_iff hstep).mpr ⟨hroom, rfl, rfl⟩, hrest⟩

theorem runs_cons_of_action {α : Type} {a : Action α} (next : α → Frame)
    (hstep : (c.step call op f).run.run (s.spent 1)
      = (a >>= fun x => pure (Step.next (next x))).run.run (s.spent 1)) :
    c.Runs call (op :: ops) f s h u
      ↔ s.executed < s.limit ∧ ∃ x t, a.run.run (s.spent 1) = (.ok x, t)
        ∧ c.Runs call ops (next x) t h u := by
  rw [Action.bind_run] at hstep
  cases ha : a.run.run (s.spent 1) with
  | mk result t =>
    rw [ha] at hstep
    cases result with
    | error e =>
      rw [runs_cons]
      constructor
      · rintro ⟨g, t, hdoes, -⟩
        cases ((does_iff hstep).mp hdoes).2.1
      · rintro ⟨-, x, t', hx, -⟩
        cases (Prod.mk.inj hx).1
    | ok x =>
      rw [runs_cons_of_step hstep]
      constructor
      · rintro ⟨hroom, hrest⟩
        exact ⟨hroom, x, t, rfl, hrest⟩
      · rintro ⟨hroom, x', t', hx, hrest⟩
        obtain ⟨hx, rfl⟩ := Prod.mk.inj hx
        cases hx
        exact ⟨hroom, hrest⟩

/-! ## Plain operations -/

/-- The operation changes the frame only. -/
def Plain (c : Site) (call : Call) (op : Op) (f g : Frame) : Prop :=
  ∀ s, (c.step call op f).run.run s = (.ok (.next g), s)

theorem runs_plain (hop : c.Plain call op f g) :
    c.Runs call (op :: ops) f s h u
      ↔ s.executed < s.limit ∧ c.Runs call ops g (s.spent 1) h u :=
  runs_cons_of_step (hop (s.spent 1))

theorem plain_ldarg {k : UInt16} {v : Value} (hv : f.arguments[k.toNat]? = some v) :
    c.Plain call (.ldarg k) f (f.push v) := by
  intro s
  show (c.pushFound .ldarg f f.arguments[k.toNat]?).run.run s = _
  rw [hv]
  rfl

theorem ldarg_of_runs {k : UInt16} (hruns : c.Runs call (.ldarg k :: ops) f s h u) :
    ∃ v, f.arguments[k.toNat]? = some v ∧ c.Runs call ops (f.push v) (s.spent 1) h u := by
  cases hv : f.arguments[k.toNat]? with
  | some v => exact ⟨v, rfl, ((runs_plain (plain_ldarg hv)).mp hruns).2⟩
  | none =>
    obtain ⟨g, t, hdoes, -⟩ := runs_cons.mp hruns
    have hload : (c.pushFound .ldarg f f.arguments[k.toNat]?).run.run
        { s with executed := s.executed + 1 } = (.ok (.next g), t) := hdoes.2
    rw [hv] at hload
    cases (Prod.mk.inj hload).1

theorem plain_ldloc {k : UInt16} {v : Value} (hv : f.slots[k.toNat]? = some v) :
    c.Plain call (.ldloc k) f (f.push v) := by
  intro s
  show (c.pushFound .ldloc f f.slots[k.toNat]?).run.run s = _
  rw [hv]
  rfl

theorem plain_ldnull : c.Plain call .ldnull f (f.push .null) := fun _ => rfl

theorem plain_nop : c.Plain call .nop f f := fun _ => rfl

theorem plain_stloc {k : UInt16} {v : Value} (hk : k.toNat < f.slots.length) :
    c.Plain call (.stloc k) (f.push v) { f with slots := f.slots.set k.toNat v } := by
  intro s
  show (c.storeSlot (f.push v) k.toNat).run.run s = _
  unfold storeSlot
  rw [Action.bind_run]
  show (if k.toNat < f.slots.length then _ else _ : Action Step).run.run s = _
  rw [if_pos hk]
  rfl

/-! ## The heap -/

theorem step_ldstr (text : String) :
    (c.step call (.ldstr text) f).run.run s
      = (.ok (.next (f.push (.ref s.heap.next))), { s with heap := s.heap.push (.string text) }) :=
  rfl

theorem heap_get_run {r : HeapRef} {o : HeapObject} (hr : s.heap.get? r = some o) :
    (Action.heap (·.get r)).run.run s = (.ok o, s) := by
  rw [Action.heap_run, Likeness.get_eq_ok.mpr hr]

theorem heap_getField_run {r : HeapRef} {type field : Token} {fields : TokenMap Value}
    (hr : s.heap.get? r = some (.object type fields)) :
    (Action.heap (·.getField r field)).run.run s = (.ok (fields.get? field), s) := by
  rw [Action.heap_run]
  unfold Heap.getField
  rw [Likeness.get_eq_ok.mpr hr]
  rfl

theorem heap_typeOf_run {r : HeapRef} {o : HeapObject} (hr : s.heap.get? r = some o) :
    (Action.heap (·.typeOf r)).run.run s = (.ok o.type?, s) := by
  rw [Action.heap_run]
  unfold Heap.typeOf
  rw [Likeness.get_eq_ok.mpr hr]
  rfl

theorem setField_run {r : HeapRef} {type field : Token} {fields : TokenMap Value} {v : Value}
    (hr : s.heap.get? r = some (.object type fields)) :
    (Action.setField r field v).run.run s
      = (.ok (), { s with heap := s.heap.put r field v }) := by
  show Action.setField r field v s = _
  unfold Action.setField
  rw [Heap.checkStore_eq_ok.mpr ⟨type, fields, hr⟩]

/-- The value of a field of an object, the default of its type if nothing was stored. -/
def fieldValue (c : Site) (fields : TokenMap Value) (field : Field) : Value :=
  (fields.get? field.token).getD (c.module.defaultOf field.type)

theorem step_ldfld {r : HeapRef} {type : Token} {fields : TokenMap Value} {field : Field}
    (hr : s.heap.get? r = some (.object type fields)) :
    (c.step call (.ldfld field) (f.push (.ref r))).run.run s
      = (.ok (.next (f.push (c.fieldValue fields field))), s) := by
  show (c.loadField (f.push (.ref r)) field).run.run s = _
  unfold loadField
  rw [Action.bind_run]
  show ((c.object (.ref r) >>= fun r => Action.heap (·.getField r field.token) >>= fun stored =>
    pure (Step.next (f.push (stored.getD (c.module.defaultOf field.type)))))).run.run s = _
  rw [Action.bind_run]
  show ((Action.heap (·.getField r field.token) >>= fun stored =>
    pure (Step.next (f.push (stored.getD (c.module.defaultOf field.type)))))).run.run s = _
  rw [Action.bind_run, heap_getField_run hr]
  rfl

theorem step_stfld (call : Call) (field : Field) {r : HeapRef} {type : Token}
    {fields : TokenMap Value} {v : Value} (hr : s.heap.get? r = some (.object type fields)) :
    (c.step call (.stfld field) ((f.push (.ref r)).push v)).run.run s
      = (.ok (.next f), { s with heap := s.heap.put r field.token v }) := by
  show (c.storeField ((f.push (.ref r)).push v) field).run.run s = _
  unfold storeField
  rw [Action.bind_run]
  show ((c.pop (f.push (.ref r)) >>= fun x => c.object x.1 >>= fun r =>
    Action.setField r field.token v >>= fun _ => pure (Step.next x.2))).run.run s = _
  rw [Action.bind_run]
  show ((c.object (.ref r) >>= fun r =>
    Action.setField r field.token v >>= fun _ => pure (Step.next f))).run.run s = _
  rw [Action.bind_run]
  show ((Action.setField r field.token v >>= fun _ => pure (Step.next f))).run.run s = _
  rw [Action.bind_run, setField_run hr]
  rfl

theorem step_box {type : TypeId} {d : TypeDef} {v : Value} (hd : c.module.type? type = some d)
    (hvalue : d.isValue = true) :
    (c.step call (.box type) (f.push v)).run.run s
      = (.ok (.next (f.push (.ref s.heap.next))),
          { s with heap := s.heap.push (.boxed d.token v) }) := by
  have hfound : (c.module.type? type).filter (·.isValue) = some d := by
    rw [hd, Option.filter_some, if_pos hvalue]
  show (c.boxTop (f.push v) type).run.run s = _
  unfold boxTop
  rw [Action.bind_run]
  simp only [hfound]
  rfl

end Site

end SetterLoom
