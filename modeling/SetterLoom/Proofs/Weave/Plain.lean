import SetterLoom.Proofs.Machine.Interleaved
import SetterLoom.Proofs.Weave.Layout
import SetterLoom.Proofs.Weave.Notified

/-!
# Layouts without a subscription

Without a subscription all inserted code goes straight on, and no branch of the unedited code goes to it:
its labels are drawn after all that the body was written with. The slots it stores into are new, and none
of them is stored into twice.

* `Layout.aside`: the inserted code is run only when control falls through to it.
* `Layout.nodup_entry`, `Layout.notifies`: the slots.
-/

namespace SetterLoom
set_option autoImplicit false

/-- No branch of the code goes to a label that is still to be drawn. -/
def Stream.Settled (code : Stream) (serial : Nat) : Prop :=
  ∀ i ∈ code, ∀ l, i.op.target? = some l → ∀ n, serial ≤ n → l ≠ .drawn n

namespace BlockContext

/-- The code announces the promised targets, with slots of its own among the given ones. -/
def Notifies (ctx : BlockContext) (before : String → Bool → UInt16) (first count : Nat)
    (ops : List Op) : Prop :=
  ∃ pairs : List (Property × AfterSlots), pairs.map (·.1) = ctx.promised
    ∧ ops = pairs.flatMap (fun t => ctx.announceOps t.1 before t.2.call)
    ∧ (∀ t ∈ pairs, ctx.type.invoker.valueForm?.isSome →
      first ≤ t.2.call.toNat ∧ t.2.call.toNat < first + count)
    ∧ ∀ t ∈ pairs, ∀ u ∈ pairs, ∀ boxed, ctx.type.invoker.valueForm? = some boxed →
      t.2.call.toNat ≠ (before u.1.name boxed).toNat

theorem invokerForms_eq (invoker : Invoker) : invokerForms invoker = invoker.valueForm?.toList := by
  cases invoker <;> rfl

theorem storedSlots_entryOps (ctx : BlockContext) (readings : List Reading)
    (before : String → Bool → UInt16) :
    storedSlots (ctx.entryOps readings before)
      = (firstReadings readings).map fun q => before q.1.name q.2 := by
  unfold entryOps
  induction firstReadings readings with
  | nil => rfl
  | cons q rest ih =>
    rw [List.flatMap_cons, storedSlots_append, storedSlots_readOps, ih]
    rfl

theorem mem_storedSlots_announceOps {ctx : BlockContext} (target : Property)
    (before : String → Bool → UInt16) {after : UInt16} (h : ctx.type.invoker.valueForm?.isSome) :
    after ∈ storedSlots (ctx.announceOps target before after) := by
  obtain ⟨boxed, hform⟩ := Option.isSome_iff_exists.mp h
  rw [storedSlots_announceOps]
  unfold valueOps
  rw [hform, Option.elim_some, storedSlots_readOps]
  exact List.mem_singleton_self after

section Plain

variable {ctx : BlockContext} (hhooks : ctx.options.changeHooks = false) (called : List String)
include hhooks

theorem targetForms_eq (t : Property) :
    ctx.targetForms called t
      = if ctx.property.announces t.name then [] else ctx.type.invoker.valueForm?.toList := by
  have hnone : ctx.hookFor? called t = none := by
    unfold hookFor?
    rw [hhooks]
    rfl
  unfold targetForms
  rw [hnone, invokerForms_eq]
  rfl

theorem targetsReadings_eq :
    ctx.targetsReadings called ctx.property.targets
      = ctx.promised.flatMap fun t => ctx.type.invoker.valueForm?.toList.map (t, ·) := by
  unfold targetsReadings promised
  induction ctx.property.targets with
  | nil => rfl
  | cons t rest ih =>
    rw [List.flatMap_cons, ih, targetForms_eq hhooks called, List.filter_cons]
    cases ctx.property.announces t.name with
    | true => rfl
    | false => rw [if_neg Bool.false_ne_true, Bool.not_false, if_pos rfl, List.flatMap_cons]

end Plain

end BlockContext

theorem length_addReading_le (known : List Reading) (q : Reading) :
    (addReading known q).length ≤ known.length + 1 := by
  unfold addReading
  split
  · exact Nat.le_succ _
  · rw [List.length_append]
    exact Nat.le_refl _

theorem length_firstReadings_le (readings : List Reading) :
    (firstReadings readings).length ≤ readings.length := by
  have hfold : ∀ (more known : List Reading),
      (more.foldl addReading known).length ≤ known.length + more.length := by
    intro more
    induction more with
    | nil => exact fun _ => Nat.le_refl _
    | cons q rest ih =>
      intro known
      have hrest := ih (addReading known q)
      have hone := length_addReading_le known q
      rw [List.foldl_cons, List.length_cons]
      omega
  have hall := hfold readings []
  rw [List.length_nil, Nat.zero_add] at hall
  exact hall

theorem mem_of_mem_firstReadings {readings : List Reading} {q : Reading}
    (h : q ∈ firstReadings readings) : q ∈ readings := by
  have hfold : ∀ (more known : List Reading), q ∈ more.foldl addReading known →
      q ∈ known ∨ q ∈ more := by
    intro more
    induction more with
    | nil => exact fun _ h => .inl h
    | cons q' rest ih =>
      intro known hq
      rcases ih _ hq with hold | hrest
      · unfold addReading at hold
        split at hold
        · exact .inl hold
        · rcases List.mem_append.mp hold with hold | hnew
          · exact .inl hold
          · exact .inr (List.mem_singleton.mp hnew ▸ List.mem_cons_self)
      · exact .inr (List.mem_cons_of_mem _ hrest)
  rcases hfold readings [] h with hnone | hmem
  · exact absurd hnone List.not_mem_nil
  · exact hmem

namespace Layout

variable {ctx : BlockContext} {subscription : Option (Field × Event × MethodId)}
  {called : List String} {anchors : List Nat} {before : String → Bool → UInt16} {code : Stream}

theorem mem_injected (l : Layout ctx subscription called anchors before) {j : Instruction}
    (h : j ∈ l.prologue ∨ ∃ p, p ≤ code.length ∧ j ∈ l.block code p) : j ∈ l.injected code := by
  rcases h with h | ⟨p, hp, h⟩
  · exact List.mem_append_left _ h
  · exact List.mem_append_right _
      (List.mem_flatMap.mpr ⟨p, List.mem_range.mpr (Nat.lt_succ_of_le hp), h⟩)

theorem unlabelled_prologue (l : Layout ctx subscription called anchors before) {j : Instruction}
    (hj : j ∈ l.prologue) : j.op.Unlabelled := by
  have hop : j.op ∈ l.prologue.map (·.op) := List.mem_map_of_mem hj
  rw [l.prologue_ops] at hop
  exact BlockContext.unlabelled_entryOps _ _ _ hop

theorem unlabelled_notification (l : Layout ctx subscription called anchors before) {j : Instruction} {p : Nat}
    (hp : p ∈ anchors) (hj : j ∈ l.notification p) : j.op.Unlabelled := by
  obtain ⟨after, -, hops⟩ := l.notification_ops p hp
  have hop : j.op ∈ (l.notification p).map (·.op) := List.mem_map_of_mem hj
  rw [hops] at hop
  exact BlockContext.unlabelled_changeOps called before after _ hop

section Plain

variable (l : Layout ctx none called anchors before)

theorem block_eq (p : Nat) :
    l.block code p = if p ∈ anchors then l.notification p else [] := by
  have hunsubscribe : l.unsubscribe = [] := l.unsubscribe_ops
  have hsubscribe : l.subscribe = [] := l.subscribe_ops
  unfold block
  rw [hunsubscribe, hsubscribe, ite_self, ite_self]
  rfl

theorem aside {serial count : Nat} (hsettled : code.Settled serial)
    (hlabels : ((l.injected code).map (·.label)).Perm
      ((List.range' serial count).map .drawn)) :
    Site.Aside l.prologue (l.block code) code := by
  have hdrawn : ∀ i ∈ code, ∀ l', i.op.target? = some l' → ∀ j ∈ l.injected code,
      j.label ≠ l' := by
    rintro i hi l' hl' j hj rfl
    have hmem := hlabels.mem_iff.mp (List.mem_map_of_mem hj)
    obtain ⟨n, hn, hlabel⟩ := List.mem_map.mp hmem
    exact hsettled i hi _ hl' n (List.mem_range'_1.mp hn).1 hlabel.symm
  refine ⟨fun j hj => ?_, fun p _ j hj => ?_, fun i hi l' hl' j hj => ?_,
    fun i hi l' hl' p hp j hj => ?_⟩
  · exact (l.unlabelled_prologue hj).1.working.1
  · rw [block_eq] at hj
    split at hj
    · rename_i hp
      exact (l.unlabelled_notification hp hj).1.working.1
    · exact absurd hj List.not_mem_nil
  · exact hdrawn i hi l' hl' j (l.mem_injected (.inl hj))
  · exact hdrawn i hi l' hl' j (l.mem_injected (.inr ⟨p, hp, hj⟩))

end Plain

/-! ## The slots -/

/-- The injected code stores into the given slots, each once. -/
def StoresInto (l : Layout ctx subscription called anchors before) (code : Stream) (first count : Nat) :
    Prop :=
  ((storedSlots ((l.injected code).map (·.op))).map (·.toNat)).Perm (List.range' first count)

private theorem mem_entry {q : Reading} (hq : q ∈ ctx.targetsReadings called ctx.property.targets) :
    (before q.1.name q.2).toNat ∈
      (firstReadings (ctx.targetsReadings called ctx.property.targets)).map
        fun q => (before q.1.name q.2).toNat := by
  obtain ⟨k, hk, hkey⟩ := List.mem_map.mp (mem_keys_firstReadings hq)
  obtain ⟨hname, hform⟩ := Prod.mk.inj hkey
  exact List.mem_map.mpr ⟨k, hk, by rw [hname, hform]⟩

variable {l : Layout ctx subscription called anchors before} {first count : Nat}
  (hstores : l.StoresInto code first count)
include hstores

private theorem stores_split :
    (((firstReadings (ctx.targetsReadings called ctx.property.targets)).map
        fun q => (before q.1.name q.2).toNat)
      ++ (storedSlots ((code.injected (l.block code)).map (·.op))).map (·.toNat)).Perm
      (List.range' first count) := by
  unfold StoresInto injected at hstores
  rw [List.map_append, storedSlots_append, l.prologue_ops,
    BlockContext.storedSlots_entryOps, List.map_append, List.map_map] at hstores
  exact hstores

theorem nodup_entry :
    ((firstReadings (ctx.targetsReadings called ctx.property.targets)).map
      fun q => before q.1.name q.2).Nodup := by
  have hall := (stores_split hstores).nodup_iff.mpr List.nodup_range'
  have hentry := (List.nodup_append.mp hall).1
  rw [← Function.comp_def (f := fun slot : UInt16 => slot.toNat), ← List.map_map] at hentry
  exact hentry.of_map

theorem entry_inside {q : Reading} (hq : q ∈ ctx.targetsReadings called ctx.property.targets) :
    first ≤ (before q.1.name q.2).toNat ∧ (before q.1.name q.2).toNat < first + count := by
  have hmem := (stores_split hstores).mem_iff.mp
    (List.mem_append_left _ (mem_entry hq))
  exact List.mem_range'_1.mp hmem

theorem apart_of_mem_injected {q : Reading} (hq : q ∈ ctx.targetsReadings called ctx.property.targets)
    {n : UInt16} (hn : n ∈ storedSlots ((code.injected (l.block code)).map (·.op))) :
    n.toNat ≠ (before q.1.name q.2).toNat := by
  have hall := (stores_split hstores).nodup_iff.mpr List.nodup_range'
  exact fun heq => (List.nodup_append.mp hall).2.2 _ (mem_entry hq) _ (List.mem_map_of_mem hn) heq.symm

omit hstores in
theorem notifies {l : Layout ctx none called anchors before} (hstores : l.StoresInto code first count)
    (hhooks : ctx.options.changeHooks = false)
    (hflag : ctx.options.dirtyFlag = false) {p : Nat} (hp : p ∈ anchors) (hle : p ≤ code.length) :
    ctx.Notifies before first count ((l.block code p).map (·.op)) := by
  obtain ⟨after, hlength, hops⟩ := l.notification_ops p hp
  rw [block_eq, if_pos hp, hops, BlockContext.changeOps_eq hhooks hflag]
  have hfst : (ctx.property.targets.zip after).map Prod.fst = ctx.property.targets :=
    List.map_fst_zip (Nat.le_of_eq hlength.symm)
  -- the slot for a value after the change is one of those that the block stores into
  have hstored : ∀ t ∈ (ctx.property.targets.zip after).filter fun t =>
      !ctx.property.announces t.1.name, ctx.type.invoker.valueForm?.isSome →
        t.2.call.toNat ∈
          (storedSlots ((code.injected (l.block code)).map (·.op))).map (·.toNat) := by
    intro t ht hform
    refine List.mem_map_of_mem (List.mem_filterMap.mpr ?_)
    obtain ⟨op, hop, hslot⟩ := List.mem_filterMap.mp
      (BlockContext.mem_storedSlots_announceOps t.1 before hform)
    refine ⟨op, ?_, hslot⟩
    have hblock : op ∈ (l.block code p).map (·.op) := by
      rw [block_eq, if_pos hp, hops, BlockContext.changeOps_eq hhooks hflag]
      exact List.mem_flatMap.mpr ⟨t, ht, hop⟩
    obtain ⟨j, hj, rfl⟩ := List.mem_map.mp hblock
    exact List.mem_map_of_mem (List.mem_flatMap.mpr
      ⟨p, List.mem_range.mpr (Nat.lt_succ_of_le hle), hj⟩)
  refine ⟨_, ?_, rfl, fun t ht hform => ?_, fun t ht u hu boxed hform => ?_⟩
  · have hmap := List.filter_map (f := Prod.fst) (l := ctx.property.targets.zip after)
      (p := fun t => !ctx.property.announces t.name)
    rw [hfst] at hmap
    exact hmap.symm
  · have hmem := (stores_split hstores).mem_iff.mp
      (List.mem_append_right _ (hstored t ht hform))
    exact List.mem_range'_1.mp hmem
  · have hall := (stores_split hstores).nodup_iff.mpr List.nodup_range'
    have hapart := (List.nodup_append.mp hall).2.2
    have hu' : u.1 ∈ ctx.promised := by
      obtain ⟨hzip, hannounces⟩ := List.mem_filter.mp hu
      exact List.mem_filter.mpr ⟨(List.of_mem_zip hzip).1, hannounces⟩
    have hreading : (u.1, boxed) ∈ ctx.targetsReadings called ctx.property.targets := by
      rw [BlockContext.targetsReadings_eq hhooks called]
      refine List.mem_flatMap.mpr ⟨u.1, hu', List.mem_map.mpr ⟨boxed, ?_, rfl⟩⟩
      rw [hform]
      exact List.mem_singleton_self boxed
    exact fun heq => hapart _ (mem_entry hreading) _
      (hstored t ht (by rw [hform]; rfl)) heq.symm

end Layout

end SetterLoom
