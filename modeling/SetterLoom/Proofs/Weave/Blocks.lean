import SetterLoom.Weave.Subscription

/-!
# The code of the blocks

The code that announces a change is written down here without the order in which it is made: for given
slots, what is read into them and what is called. A value before the change is read once for its target
and its form, and so all blocks of a setter take it from the same slot.

* `changeOps`, `entryOps`: the code behind a store, and the code in front of everything.
* `firstReadings_append_of_subset`: what is read already is not read again.
-/

namespace SetterLoom
set_option autoImplicit false

/-- The slot that an operation stores into. -/
def Op.storedSlot? (op : Op) : Option UInt16 :=
  match op.code, op.operand with
  | .stloc, .slot i => some i
  | _, _ => none

/-- The slots that code stores into, in order. -/
def storedSlots (ops : List Op) : List UInt16 := ops.filterMap Op.storedSlot?

@[simp] theorem storedSlots_append (ops ops' : List Op) :
    storedSlots (ops ++ ops') = storedSlots ops ++ storedSlots ops' :=
  List.filterMap_append

/-- A value that is read from a target, as an object if the second component says so. -/
abbrev Reading := Property × Bool

/-- The readings without those whose name and form were read before. -/
def addReading (known : List Reading) (r : Reading) : List Reading :=
  if known.any fun k => k.1.name == r.1.name && k.2 == r.2 then known else known ++ [r]

/-- The first reading of each name and form. -/
def firstReadings (readings : List Reading) : List Reading := readings.foldl addReading []

/-- The slots that the values of one target after the change are read into. -/
structure AfterSlots where
  hook : UInt16
  call : UInt16
  deriving DecidableEq, Repr

namespace BlockContext

/-- Read the current value of a target into a slot, as an object if `boxed`. -/
def readOps (ctx : BlockContext) (target : Property) (boxed : Bool) (slot : UInt16) : List Op :=
  let isValue := (ctx.module.type? target.type).any (·.isValue)
  let boxing := if boxed && isValue then [Op.box target.type] else []
  [.ldarg 0] ++ target.getter.toList.map Op.callvirt ++ boxing ++ [.stloc slot]

/-- The call of the invoker for a target. -/
def callOp (ctx : BlockContext) (invoker : MethodId) (target : Property) : Op :=
  if (ctx.module.method? invoker).any (·.isGeneric) then .callvirtGeneric invoker [target.type]
  else .callvirt invoker

/-- The code that announces a target, with the slots of its value before and after. -/
def announceOps (ctx : BlockContext) (target : Property) (before : String → Bool → UInt16)
    (after : UInt16) : List Op :=
  let withValues (boxed : Bool) : List Op :=
    ctx.readOps target boxed after
      ++ [.ldarg 0, .ldstr target.name, .ldloc (before target.name boxed), .ldloc after]
  let arguments : List Op :=
    match ctx.type.invoker with
    | .simple _ => [.ldarg 0, .ldstr target.name]
    | .arguments _ c => [.ldarg 0, .ldstr target.name, .newobj c]
    | .senderAndArguments _ c => [.ldarg 0, .ldarg 0, .ldstr target.name, .newobj c]
    | .beforeAfter _ => withValues true
    | .typedBeforeAfter _ => withValues false
  arguments ++ [ctx.callOp ctx.type.invoker.method target]

/-- The code that calls the hook of a target. -/
def hookOps (ctx : BlockContext) (target : Property) (hook : ChangeHook)
    (before : String → Bool → UInt16) (after : UInt16) : List Op :=
  match hook with
  | .noArguments i => [.ldarg 0, .callvirt i]
  | .beforeAfter i =>
    ctx.readOps target true after
      ++ [.ldarg 0, .ldloc (before target.name true), .ldloc after, .callvirt i]

/-- The code for one target: its hook, and its announcement unless the setter makes it already. -/
def targetOps (ctx : BlockContext) (called : List String) (before : String → Bool → UInt16)
    (target : Property) (after : AfterSlots) : List Op :=
  (ctx.hookFor? called target).elim [] (ctx.hookOps target · before after.hook)
    ++ if ctx.property.announces target.name then [] else ctx.announceOps target before after.call

/-- The code for targets, one behind the other, each with its own slots. -/
def targetsOps (ctx : BlockContext) (called : List String) (before : String → Bool → UInt16)
    (targets : List Property) (after : List AfterSlots) : List Op :=
  (targets.zip after).flatMap fun t => ctx.targetOps called before t.1 t.2

/-- The code behind one store. -/
def changeOps (ctx : BlockContext) (called : List String) (before : String → Bool → UInt16)
    (after : List AfterSlots) : List Op :=
  ctx.dirtyFlagOps ++ ctx.targetsOps called before ctx.property.targets after

/-- The forms in which a hook takes the value before the change. -/
def hookForms : ChangeHook → List Bool
  | .noArguments _ => []
  | .beforeAfter _ => [true]

/-- The forms in which an invoker takes the value before the change. -/
def invokerForms : Invoker → List Bool
  | .simple _ | .arguments _ _ | .senderAndArguments _ _ => []
  | .beforeAfter _ => [true]
  | .typedBeforeAfter _ => [false]

/-- The forms in which the value of a target before the change is wanted, in the order of the code. -/
def targetForms (ctx : BlockContext) (called : List String) (target : Property) : List Bool :=
  (ctx.hookFor? called target).elim [] hookForms
    ++ if ctx.property.announces target.name then [] else invokerForms ctx.type.invoker

/-- The values before the change that the code behind a store wants, in its order. -/
def targetsReadings (ctx : BlockContext) (called : List String) (targets : List Property) :
    List Reading :=
  targets.flatMap fun t => (ctx.targetForms called t).map (t, ·)

/-- The code that reads the values before the change, each once. -/
def entryOps (ctx : BlockContext) (readings : List Reading) (before : String → Bool → UInt16) :
    List Op :=
  (firstReadings readings).flatMap fun r => ctx.readOps r.1 r.2 (before r.1.name r.2)

@[simp] theorem storedSlots_readOps (ctx : BlockContext) (target : Property) (boxed : Bool)
    (slot : UInt16) : storedSlots (ctx.readOps target boxed slot) = [slot] := by
  unfold readOps
  cases target.getter with
  | none => dsimp only; split <;> rfl
  | some getter => dsimp only; split <;> rfl

end BlockContext

/-! ## Readings -/

theorem firstReadings_append (readings more : List Reading) :
    firstReadings (readings ++ more) = more.foldl addReading (firstReadings readings) :=
  List.foldl_append

theorem mem_keys_addReading {known : List Reading} {r : Reading} :
    (r.1.name, r.2) ∈ (addReading known r).map fun k => (k.1.name, k.2) := by
  unfold addReading
  split
  · rename_i h
    obtain ⟨k, hk, hkey⟩ := List.any_eq_true.mp h
    rw [Bool.and_eq_true, beq_iff_eq, beq_iff_eq] at hkey
    exact List.mem_map.mpr ⟨k, hk, Prod.ext hkey.1 hkey.2⟩
  · simp

theorem keys_subset_addReading {known : List Reading} (r : Reading) :
    known ⊆ addReading known r := by
  unfold addReading
  split
  · exact fun _ h => h
  · exact List.subset_append_left _ _

theorem subset_foldl_addReading (known more : List Reading) :
    known ⊆ more.foldl addReading known := by
  induction more generalizing known with
  | nil => exact fun _ h => h
  | cons r rest ih => exact fun _ h => ih (addReading known r) (keys_subset_addReading r h)

theorem foldl_addReading_of_known {known more : List Reading}
    (h : ∀ r ∈ more, (r.1.name, r.2) ∈ known.map fun k => (k.1.name, k.2)) :
    more.foldl addReading known = known := by
  induction more with
  | nil => rfl
  | cons r rest ih =>
    have hr : addReading known r = known := by
      obtain ⟨k, hk, hkey⟩ := List.mem_map.mp (h r List.mem_cons_self)
      refine if_pos (List.any_eq_true.mpr ⟨k, hk, ?_⟩)
      rw [Prod.mk.injEq] at hkey
      rw [Bool.and_eq_true, beq_iff_eq, beq_iff_eq]
      exact hkey
    rw [List.foldl_cons, hr]
    exact ih fun q hq => h q (List.mem_cons_of_mem _ hq)

theorem mem_keys_firstReadings {readings : List Reading} {r : Reading} (h : r ∈ readings) :
    (r.1.name, r.2) ∈ (firstReadings readings).map fun k => (k.1.name, k.2) := by
  obtain ⟨front, back, rfl⟩ := List.append_of_mem h
  rw [firstReadings_append, List.foldl_cons]
  exact List.map_subset _ (subset_foldl_addReading _ back) mem_keys_addReading

/-- Reading the same values once more adds nothing. -/
theorem firstReadings_append_of_subset {readings more : List Reading} (h : more ⊆ readings) :
    firstReadings (readings ++ more) = firstReadings readings := by
  rw [firstReadings_append]
  exact foldl_addReading_of_known fun r hr => mem_keys_firstReadings (h hr)

theorem nodup_keys_firstReadings (readings : List Reading) :
    ((firstReadings readings).map fun k => (k.1.name, k.2)).Nodup := by
  -- for every list of known readings, as it grows along the way
  have hstep : ∀ (more known : List Reading),
      (known.map fun k => (k.1.name, k.2)).Nodup →
        ((more.foldl addReading known).map fun k => (k.1.name, k.2)).Nodup := by
    intro more
    induction more with
    | nil => exact fun _ h => h
    | cons r rest ih =>
      intro known h
      refine ih _ ?_
      unfold addReading
      split
      · exact h
      · rename_i hnew
        rw [List.map_append, List.nodup_append]
        refine ⟨h, by simp, ?_⟩
        rintro a ha b hb rfl
        obtain ⟨k, hk, hkey⟩ := List.mem_map.mp ha
        refine hnew (List.any_eq_true.mpr ⟨k, hk, ?_⟩)
        rw [List.map_singleton, List.mem_singleton] at hb
        rw [hb, Prod.mk.injEq] at hkey
        rw [Bool.and_eq_true, beq_iff_eq, beq_iff_eq]
        exact hkey
  exact hstep readings [] List.nodup_nil

end SetterLoom
