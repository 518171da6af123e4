import SetterLoom.Proofs.Machine.Ends

/-!
# How operations go on

Most operations go on with the next instruction, and the others go to their label or return. None of them
touches the arguments, and none adds a slot.

* `Does.straight`, `Does.way`: how an operation goes on.
-/

namespace SetterLoom
set_option autoImplicit false

/-- The operation goes on with the next instruction. -/
def Op.Straight (op : Op) : Prop :=
  op.code ≠ .br ∧ op.code ≠ .brtrue ∧ op.code ≠ .brfalse ∧ op.code ≠ .ret

/-- A frame of the same body: the arguments are the same, and there are as many slots. -/
structure Frame.Kept (f g : Frame) : Prop where
  arguments : g.arguments = f.arguments
  slots : g.slots.length = f.slots.length

theorem Frame.Kept.trans {f g h : Frame} (hfg : f.Kept g) (hgh : g.Kept h) : f.Kept h :=
  ⟨hgh.arguments.trans hfg.arguments, hgh.slots.trans hfg.slots⟩

/-- A frame after an operation: at most the slot that the operation stores into is another. -/
structure Frame.After (op : Op) (f g : Frame) : Prop where
  arguments : g.arguments = f.arguments
  slots : g.slots = f.slots ∨ ∃ k v, op = .stloc k ∧ g.slots = f.slots.set k.toNat v

theorem Frame.After.kept {op : Op} {f g : Frame} (h : f.After op g) : f.Kept g := by
  refine ⟨h.arguments, ?_⟩
  rcases h.slots with hsame | ⟨k, v, -, hset⟩
  · rw [hsame]
  · rw [hset, List.length_set]

namespace Site

variable {c : Site} {call : Call}

/-- Every result of the action has the property. -/
private def Only {α : Type} (p : α → Prop) (a : Action α) : Prop :=
  ∀ ⦃s x t⦄, a.run.run s = (.ok x, t) → p x

private theorem only_pure {α : Type} {p : α → Prop} {x : α} (h : p x) : Only p (pure x) := by
  intro s y t hrun
  obtain ⟨hy, -⟩ := Prod.mk.inj hrun
  cases hy
  exact h

private theorem only_fault {α : Type} {p : α → Prop} {e : Fault} : Only p (Action.fault e) := by
  intro s y t hrun
  cases (Prod.mk.inj hrun).1

private theorem only_bind {α β : Type} {q : α → Prop} {p : β → Prop} {a : Action α}
    {f : α → Action β} (ha : Only q a) (hf : ∀ x, q x → Only p (f x)) : Only p (a >>= f) := by
  intro s y t hrun
  rw [Action.bind_run] at hrun
  cases hax : a.run.run s with
  | mk result u =>
    rw [hax] at hrun
    cases result with
    | error e => cases (Prod.mk.inj hrun).1
    | ok x => exact hf x (ha hax) hrun

private theorem only_any {α : Type} {a : Action α} : Only (fun _ => True) a :=
  fun _ _ _ _ => trivial

/-- Only the operands are others. -/
private def Level (f g : Frame) : Prop := g.arguments = f.arguments ∧ g.slots = f.slots

private theorem Level.after {f g : Frame} (h : Level f g) (op : Op) : f.After op g :=
  ⟨h.1, .inl h.2⟩

private theorem Level.trans {f g h : Frame} (hfg : Level f g) (hgh : Level g h) : Level f h :=
  ⟨hgh.1.trans hfg.1, hgh.2.trans hfg.2⟩

/-- The body goes on with the next instruction. -/
private def Onward (f : Frame) (way : Step) : Prop := ∃ g, way = .next g ∧ Level f g

private theorem level_push {f g : Frame} (h : Level f g) (v : Value) : Level f (g.push v) := h

private theorem level_refl (f : Frame) : Level f f := ⟨rfl, rfl⟩

private theorem only_pop (f : Frame) : Only (fun x => Level f x.2) (c.pop f) := by
  unfold pop
  split
  · exact only_pure ⟨rfl, rfl⟩
  · exact only_fault

private theorem only_popMany (f : Frame) (count : Nat) :
    Only (fun x => Level f x.2) (c.popMany f count) := by
  unfold popMany
  split
  · rename_i popped hpopped
    unfold Frame.popMany? at hpopped
    split at hpopped
    · obtain rfl := Option.some.inj hpopped
      exact only_pure ⟨rfl, rfl⟩
    · cases hpopped
  · exact only_fault

private theorem onward_pushFound {code : OpCode} {f : Frame} {found : Option Value} :
    Only (Onward f) (c.pushFound code f found) := by
  unfold pushFound
  split
  · exact only_pure ⟨_, rfl, level_push (level_refl f) _⟩
  · exact only_fault

private theorem after_storeSlot {f : Frame} {k : UInt16} :
    Only (fun way => ∃ g, way = .next g ∧ f.After (.stloc k) g) (c.storeSlot f k.toNat) := by
  refine only_bind (only_pop f) fun x hx => ?_
  dsimp only
  split
  · exact only_pure ⟨_, rfl, hx.1, .inr ⟨k, x.1, rfl, by rw [hx.2]⟩⟩
  · exact only_fault

private theorem onward_loadField {f : Frame} {field : Field} :
    Only (Onward f) (c.loadField f field) :=
  only_bind (only_pop f) fun _ hx => only_bind only_any fun _ _ => only_bind only_any fun _ _ =>
    only_pure ⟨_, rfl, level_push hx _⟩

private theorem onward_storeField {f : Frame} {field : Field} :
    Only (Onward f) (c.storeField f field) :=
  only_bind (only_pop f) fun x hx => only_bind (only_pop x.2) fun _ hy =>
    only_bind only_any fun _ _ => only_bind only_any fun _ _ => only_pure ⟨_, rfl, hx.trans hy⟩

private theorem onward_loadAddress {f : Frame} {field : Field} :
    Only (Onward f) (c.loadAddress f field) :=
  only_bind (only_pop f) fun _ hx => only_bind only_any fun _ _ =>
    only_pure ⟨_, rfl, level_push hx _⟩

private theorem onward_initialise {f : Frame} {type : TypeId} :
    Only (Onward f) (c.initialise f type) := by
  refine only_bind (only_pop f) fun x hx => ?_
  dsimp only
  split
  · exact only_bind only_any fun _ _ => only_pure ⟨_, rfl, hx⟩
  · exact only_fault

private theorem onward_boxTop {f : Frame} {type : TypeId} :
    Only (Onward f) (c.boxTop f type) := by
  refine only_bind (only_pop f) fun x hx => ?_
  dsimp only
  split
  · exact only_bind only_any fun _ _ => only_pure ⟨_, rfl, level_push hx _⟩
  · exact only_pure ⟨_, rfl, level_push hx _⟩

private theorem onward_loadFunction {f : Frame} {i : MethodId} :
    Only (Onward f) (c.loadFunction f i) := by
  unfold loadFunction
  split
  · exact only_bind only_any fun _ _ => only_pure ⟨_, rfl, level_push (level_refl f) _⟩
  · exact only_fault

private theorem onward_newObject {f : Frame} {i : MethodId} :
    Only (Onward f) (c.newObject call f i) := by
  unfold newObject
  split
  · exact only_bind (only_popMany f _) fun _ hx => only_bind only_any fun _ _ =>
      only_pure ⟨_, rfl, level_push hx _⟩
  · exact only_fault

private theorem onward_callMethod {f : Frame} {code : OpCode} {i : MethodId} :
    Only (Onward f) (c.callMethod call f code i) := by
  have hresult : ∀ {d : Method} {g : Frame} {v : Value}, Level f g →
      Onward f (.next (if d.returns.isSome then g.push v else g)) := by
    intro d g v hg
    refine ⟨_, rfl, ?_⟩
    split
    · exact level_push hg v
    · exact hg
  unfold callMethod
  split
  · exact only_fault
  · refine only_bind (only_popMany f _) fun x hx => ?_
    dsimp only
    split
    · exact only_bind only_any fun _ _ => only_pure (hresult hx)
    · exact only_bind (only_pop x.2) fun _ hy => only_bind only_any fun _ _ =>
        only_pure (hresult (hx.trans hy))

private theorem onward_ldstr {f : Frame} {text : String} :
    Only (Onward f) ((fun v => Step.next (f.push v)) <$> Action.allocString text) := by
  rw [← bind_pure_comp]
  exact only_bind only_any fun _ _ => only_pure ⟨_, rfl, level_push (level_refl f) _⟩

private theorem onward_compareTop {f : Frame} : Only (Onward f) (c.compareTop f) :=
  only_bind (only_pop f) fun x hx => only_bind (only_pop x.2) fun _ hy =>
    only_pure ⟨_, rfl, level_push (hx.trans hy) _⟩

private theorem onward_duplicate {f : Frame} : Only (Onward f) (c.duplicate f) :=
  only_bind (only_pop f) fun _ hx => only_pure ⟨_, rfl, level_push (level_push hx _) _⟩

private theorem onward_dropTop {f : Frame} : Only (Onward f) (c.dropTop f) :=
  only_bind (only_pop f) fun _ hx => only_pure ⟨_, rfl, hx⟩

private theorem only_straight {op : Op} (hop : op.Straight) (hstore : op.code ≠ .stloc) {f : Frame} :
    Only (Onward f) (c.step call op f) := by
  obtain ⟨hbr, hbrtrue, hbrfalse, hret⟩ := hop
  induction op using Op.forms with
  | nop => exact only_pure ⟨_, rfl, level_refl f⟩
  | ldnull | ldcI4 => exact only_pure ⟨_, rfl, level_push (level_refl f) _⟩
  | ceq => exact onward_compareTop
  | dup => exact onward_duplicate
  | pop => exact onward_dropTop
  | br => exact absurd rfl hbr
  | brtrue => exact absurd rfl hbrtrue
  | brfalse => exact absurd rfl hbrfalse
  | ret => exact absurd rfl hret
  | ldarg | ldloc => exact onward_pushFound
  | stloc => exact absurd rfl hstore
  | ldstr => exact onward_ldstr
  | ldfld => exact onward_loadField
  | stfld => exact onward_storeField
  | ldflda => exact onward_loadAddress
  | initobj => exact onward_initialise
  | box => exact onward_boxTop
  | ldftn => exact onward_loadFunction
  | newobj => exact onward_newObject
  | call | callvirt => exact onward_callMethod
  | stuck op hstuck =>
    rw [hstuck]
    exact only_fault

theorem Does.after_straight {op : Op} (hop : op.Straight) {f : Frame} {s t : Machine} {way : Step}
    (h : c.Does call op f s way t) : ∃ g, way = .next g ∧ f.After op g := by
  by_cases hstore : op.code = .stloc
  · obtain ⟨code, operand⟩ := op
    obtain rfl : code = .stloc := hstore
    cases operand with
    | slot k => exact after_storeSlot h.2
    | _ => exact absurd (Prod.mk.inj h.2).1 nofun
  · obtain ⟨g, hway, hlevel⟩ := only_straight hop hstore h.2
    exact ⟨g, hway, hlevel.after op⟩

theorem Does.straight {op : Op} (hop : op.Straight) {f : Frame} {s t : Machine} {way : Step}
    (h : c.Does call op f s way t) : ∃ g, way = .next g ∧ f.Kept g := by
  obtain ⟨g, hway, hafter⟩ := h.after_straight hop
  exact ⟨g, hway, hafter.kept⟩

/-- The ways in which an operation goes on in its body. -/
private def Within (op : Op) (f : Frame) (way : Step) : Prop :=
  (∃ g, way = .next g ∧ f.After op g)
    ∨ (∃ l g, way = .jump l g ∧ f.After op g ∧ op.target? = some l)
    ∨ ∃ v, way = .done v ∧ op.code = .ret

private theorem within_branchIf {code : OpCode} {l : Label} {f : Frame} {truth : Bool} :
    Only (Within ⟨code, .target l⟩ f) (c.branchIf f truth l) := by
  refine only_bind (only_pop f) fun x hx => ?_
  dsimp only
  split
  · exact only_pure (.inr (.inl ⟨l, _, rfl, hx.after _, rfl⟩))
  · exact only_pure (.inl ⟨_, rfl, hx.after _⟩)

private theorem within_of_does {op : Op} {f : Frame} {s t : Machine} {way : Step}
    (h : c.Does call op f s way t) : Within op f way := by
  by_cases hstraight : op.Straight
  · exact .inl (h.after_straight hstraight)
  · obtain ⟨code, operand⟩ := op
    refine (?_ : Only (Within ⟨code, operand⟩ f) (c.step call ⟨code, operand⟩ f)) h.2
    unfold step
    cases code with
    | br =>
      dsimp only
      split
      · exact only_pure (.inr (.inl ⟨_, f, rfl, (level_refl f).after _, rfl⟩))
      · exact only_fault
    | brtrue | brfalse =>
      dsimp only
      split
      · exact within_branchIf
      · exact only_fault
    | ret =>
      dsimp only
      unfold returnTop
      split
      · exact only_bind only_any fun _ _ => only_pure (.inr (.inr ⟨_, rfl, rfl⟩))
      · exact only_pure (.inr (.inr ⟨_, rfl, rfl⟩))
    | _ => exact absurd ⟨nofun, nofun, nofun, nofun⟩ hstraight

theorem Does.way {op : Op} {f : Frame} {s t : Machine} {way : Step}
    (h : c.Does call op f s way t) :
    (∃ g, way = .next g ∧ f.Kept g) ∨ (∃ l g, way = .jump l g ∧ f.Kept g ∧ op.target? = some l)
      ∨ ∃ v, way = .done v ∧ op.code = .ret := by
  rcases within_of_does h with ⟨g, hway, hafter⟩ | ⟨l, g, hway, hafter, htarget⟩ | hdone
  · exact .inl ⟨g, hway, hafter.kept⟩
  · exact .inr (.inl ⟨l, g, hway, hafter.kept, htarget⟩)
  · exact .inr (.inr hdone)

theorem Does.of_ret {op : Op} (hop : op.code = .ret) {f : Frame} {s t : Machine} {way : Step}
    (h : c.Does call op f s way t) : (∃ v, way = .done v) ∧ t = { s with executed := s.executed + 1 } := by
  obtain ⟨code, operand⟩ := op
  obtain rfl : code = .ret := hop
  have hrun : (c.returnTop f).run.run { s with executed := s.executed + 1 } = (.ok way, t) := h.2
  unfold returnTop at hrun
  split at hrun
  · unfold pop at hrun
    cases hstack : f.stack with
    | nil =>
      simp only [hstack] at hrun
      cases (Prod.mk.inj hrun).1
    | cons v rest =>
      simp only [hstack] at hrun
      obtain ⟨hway, rfl⟩ := Prod.mk.inj hrun
      exact ⟨⟨v, (Except.ok.inj hway).symm⟩, rfl⟩
  · obtain ⟨hway, rfl⟩ := Prod.mk.inj hrun
    exact ⟨⟨.void, (Except.ok.inj hway).symm⟩, rfl⟩

theorem Ends.of_ret {code : Stream} {act : OnFall} {p : Nat} {i : Instruction} {f : Frame} {s t : Machine}
    {v : Value} (hends : c.Ends call code act p f s v t) (hi : code[p]? = some i) (hret : i.code = .ret) :
    c.Does call i.op f s (.done v) t := by
  cases hends with
  | done hj hdoes =>
    obtain rfl := Option.some.inj (hj.symm.trans hi)
    exact hdoes
  | next hj hdoes | jump hj hdoes =>
    obtain rfl := Option.some.inj (hj.symm.trans hi)
    obtain ⟨⟨_, hway⟩, -⟩ := hdoes.of_ret hret
    cases hway

theorem Does.target_of_jump {op : Op} {f g : Frame} {s t : Machine} {l : Label}
    (h : c.Does call op f s (.jump l g) t) : op.target? = some l := by
  rcases h.way with ⟨_, hway, -⟩ | ⟨_, _, hway, -, htarget⟩ | ⟨_, hway, -⟩
  · cases hway
  · cases hway
    exact htarget
  · cases hway

theorem Does.after_of_next {op : Op} {f g : Frame} {s t : Machine}
    (h : c.Does call op f s (.next g) t) : f.After op g := by
  rcases within_of_does h with ⟨_, hway, hafter⟩ | ⟨_, _, hway, -⟩ | ⟨_, hway, -⟩
  · cases hway
    exact hafter
  · cases hway
  · cases hway

theorem Does.after_of_jump {op : Op} {f g : Frame} {s t : Machine} {l : Label}
    (h : c.Does call op f s (.jump l g) t) : f.After op g := by
  rcases within_of_does h with ⟨_, hway, -⟩ | ⟨_, _, hway, hafter, -⟩ | ⟨_, hway, -⟩
  · cases hway
  · cases hway
    exact hafter
  · cases hway

theorem Does.kept_of_next {op : Op} {f g : Frame} {s t : Machine}
    (h : c.Does call op f s (.next g) t) : f.Kept g := h.after_of_next.kept

theorem Does.kept_of_jump {op : Op} {f g : Frame} {s t : Machine} {l : Label}
    (h : c.Does call op f s (.jump l g) t) : f.Kept g := h.after_of_jump.kept

end Site

end SetterLoom
