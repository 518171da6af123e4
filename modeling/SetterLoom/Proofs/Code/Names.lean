import Mathlib.Logic.Equiv.Defs
import SetterLoom.Metadata.Method
import SetterLoom.Proofs.Weave.Branches

/-!
# Names in code

Code names methods, and instructions by their labels. Under other names it is the same code: nothing that
an edit looks at depends on a name.

Names are drawn from a supply in blocks. If the same blocks are drawn in another order, each block starts
somewhere else, and the one supply is a rearrangement of the other.

* `op_of_before`, `body_of_before`: a renaming that keeps the names there are keeps the code there is.
* `isNone_danglingBranch?_map`: branches dangle under other names if they do under these.
* `exists_rearrangement`: the rearrangement that takes each block to its place in another order.
-/

namespace SetterLoom
set_option autoImplicit false

/-! ## The names there are -/

/-- The label was written, or drawn before `serial`. -/
def Label.Before (serial : Nat) : Label → Prop
  | .written _ => True
  | .drawn n => n < serial

instance (serial : Nat) : DecidablePred (Label.Before serial)
  | .written _ => .isTrue trivial
  | .drawn n => Nat.decLt n serial

/-- The operand names only labels before `serial` and the first `size` methods. -/
def Operand.Before (serial size : Nat) : Operand → Prop
  | .method use => use.method.index < size
  | .target label => label.Before serial
  | .empty | .int _ | .string _ | .slot _ | .argument _ | .field _ | .type _ => True

instance (serial size : Nat) : DecidablePred (Operand.Before serial size)
  | .method use => Nat.decLt use.method.index size
  | .target label => inferInstanceAs (Decidable (label.Before serial))
  | .empty | .int _ | .string _ | .slot _ | .argument _ | .field _ | .type _ => .isTrue trivial

/-- The instruction names only labels before `serial` and the first `size` methods. -/
def Instruction.Before (serial size : Nat) (i : Instruction) : Prop :=
  i.label.Before serial ∧ i.op.operand.Before serial size

instance (serial size : Nat) : DecidablePred (Instruction.Before serial size) := fun i =>
  inferInstanceAs (Decidable (i.label.Before serial ∧ i.op.operand.Before serial size))

/-! ## Other names -/

/-- Other names for labels and methods. -/
structure Renaming where
  label : Label → Label
  method : MethodId → MethodId

namespace Renaming

variable (ρ : Renaming)

/-- The operand under other names. -/
def operand : Operand → Operand
  | .method use => .method { use with method := ρ.method use.method }
  | .target label => .target (ρ.label label)
  | other => other

/-- The operation under other names. -/
def op (o : Op) : Op := { o with operand := ρ.operand o.operand }

/-- The instruction under other names. -/
def instruction (i : Instruction) : Instruction := ⟨ρ.label i.label, ρ.op i.op⟩

/-- The body under other names. -/
def body (b : Body) : Body := { b with code := b.code.map ρ.instruction }

/-- The method under other names. -/
def entry (d : Method) : Method := { d with body := d.body.map ρ.body }

/-- The names there are stay as they are. -/
structure Keeps (serial size : Nat) : Prop where
  label : ∀ l : Label, l.Before serial → ρ.label l = l
  method : ∀ i : MethodId, i.index < size → ρ.method i = i

/-- The labels from `start` to `last` are those from `start'` on. -/
def Moves (start start' last : Nat) : Prop :=
  ∀ k, start + k < last → ρ.label (.drawn (start + k)) = .drawn (start' + k)

variable {ρ} {serial size start start' last : Nat}

theorem Moves.shift (h : ρ.Moves start start' last) (count : Nat) :
    ρ.Moves (start + count) (start' + count) last := by
  intro k hk
  rw [Nat.add_assoc] at hk ⊢
  rw [Nat.add_assoc]
  exact h (count + k) hk

theorem op_of_before (h : ρ.Keeps serial size) {o : Op} (ho : o.operand.Before serial size) :
    ρ.op o = o := by
  obtain ⟨code, operand⟩ := o
  cases operand with
  | method use =>
    show (⟨code, .method ⟨ρ.method use.method, use.arguments⟩⟩ : Op) = _
    rw [h.method use.method ho]
  | target label =>
    show (⟨code, .target (ρ.label label)⟩ : Op) = _
    rw [h.label label ho]
  | empty | int _ | string _ | slot _ | argument _ | field _ | type _ => rfl

theorem instruction_of_before (h : ρ.Keeps serial size) {i : Instruction}
    (hi : i.Before serial size) : ρ.instruction i = i := by
  unfold instruction
  rw [h.label i.label hi.1, op_of_before h hi.2]

theorem body_of_before (h : ρ.Keeps serial size) {b : Body}
    (hb : ∀ i ∈ b.code, i.Before serial size) : ρ.body b = b := by
  unfold body
  rw [List.map_congr_left fun i hi => instruction_of_before h (hb i hi), List.map_id']

theorem map_drawFrom (h : ρ.Moves start start' last) (ops : List Op) {k : Nat}
    (hlast : start + k + ops.length ≤ last) :
    (Instruction.drawFrom (start + k) ops).map ρ.instruction
      = Instruction.drawFrom (start' + k) (ops.map ρ.op) := by
  induction ops generalizing k with
  | nil => rfl
  | cons o rest ih =>
    rw [List.length_cons] at hlast
    have hrest := ih (k := k + 1) (by omega)
    simp only [Instruction.drawFrom, List.map_cons, instruction]
    rw [h k (by omega)]
    exact congrArg _ hrest

theorem target?_op (o : Op) : (ρ.op o).target? = o.target?.map ρ.label := by
  obtain ⟨code, operand⟩ := o
  cases operand <;> rfl

theorem position?_map (hinjective : Function.Injective ρ.label) (code : Stream) (l : Label) :
    Stream.position? (code.map ρ.instruction) (ρ.label l) = code.position? l := by
  unfold Stream.position?
  rw [List.findIdx?_map]
  refine congrArg (List.findIdx? · code) (funext fun i => ?_)
  show (ρ.label i.label == ρ.label l) = (i.label == l)
  rw [Bool.eq_iff_iff, beq_iff_eq, beq_iff_eq]
  exact hinjective.eq_iff

theorem isNone_danglingBranch?_map (hinjective : Function.Injective ρ.label) (code : Stream) :
    Stream.danglingBranch? (code.map ρ.instruction) = none ↔ code.danglingBranch? = none := by
  rw [Stream.danglingBranch?_eq_none, Stream.danglingBranch?_eq_none]
  constructor
  · intro h i hi l ⟨htarget, hnone⟩
    refine h _ (List.mem_map_of_mem hi) (ρ.label l) ⟨?_, ?_⟩
    · show (ρ.op i.op).target? = some (ρ.label l)
      rw [target?_op, htarget, Option.map_some]
    · rw [position?_map hinjective, hnone]
  · intro h j hj l ⟨htarget, hnone⟩
    obtain ⟨i, hi, rfl⟩ := List.mem_map.mp hj
    have htarget' : i.op.target?.map ρ.label = some l := (target?_op i.op).symm.trans htarget
    obtain ⟨l₀, hl₀, rfl⟩ := Option.map_eq_some_iff.mp htarget'
    exact h i hi l₀ ⟨hl₀, (position?_map hinjective code l₀).symm.trans hnone⟩

/-- The supplies stand higher: names that are drawn are drawn from there. -/
def raised (serial serial' size size' : Nat) : Renaming where
  label
    | .written n => .written n
    | .drawn n => .drawn (if n < serial then n else n - serial + serial')
  method i := ⟨if i.index < size then i.index else i.index - size + size'⟩

theorem keeps_raised (serial serial' size size' : Nat) :
    (raised serial serial' size size').Keeps serial size where
  label l hl := by
    cases l with
    | written n => rfl
    | drawn n => exact congrArg Label.drawn (if_pos hl)
  method i hi := congrArg MethodId.mk (if_pos hi)

theorem moves_raised (serial serial' size size' last : Nat) :
    (raised serial serial' size size').Moves serial serial' last := by
  intro k _
  refine congrArg Label.drawn ?_
  rw [if_neg (by omega)]
  omega

theorem method_raised (serial serial' size size' : Nat) :
    (raised serial serial' size size').method ⟨size⟩ = ⟨size'⟩ := by
  refine congrArg MethodId.mk ?_
  rw [if_neg (Nat.lt_irrefl size), Nat.sub_self, Nat.zero_add]

theorem injective_raised {serial serial' size size' : Nat} (h : serial ≤ serial') :
    Function.Injective (raised serial serial' size size').label := by
  intro l l' heq
  cases l with
  | written n =>
    cases l' with
    | written n' => exact heq
    | drawn n' => cases heq
  | drawn n =>
    cases l' with
    | written n' => cases heq
    | drawn n' =>
      have hnumber := Label.drawn.inj heq
      refine congrArg Label.drawn ?_
      split_ifs at hnumber <;> omega

/-- The supplies are rearranged. -/
def rearranged (labels methods : Equiv.Perm Nat) : Renaming where
  label
    | .written n => .written n
    | .drawn n => .drawn (labels n)
  method i := ⟨methods i.index⟩

theorem bijective_rearranged (labels methods : Equiv.Perm Nat) :
    Function.Bijective (rearranged labels methods).label
      ∧ Function.Bijective (rearranged labels methods).method := by
  refine ⟨⟨fun l l' heq => ?_, fun l => ?_⟩, fun i j heq => ?_, fun i => ?_⟩
  · cases l with
    | written n =>
      cases l' with
      | written n' => exact heq
      | drawn n' => cases heq
    | drawn n =>
      cases l' with
      | written n' => cases heq
      | drawn n' => exact congrArg Label.drawn (labels.injective (Label.drawn.inj heq))
  · cases l with
    | written n => exact ⟨.written n, rfl⟩
    | drawn n => exact ⟨.drawn (labels.symm n), congrArg Label.drawn (labels.apply_symm_apply n)⟩
  · exact congrArg MethodId.mk (methods.injective (MethodId.mk.inj heq))
  · exact ⟨⟨methods.symm i.index⟩, congrArg MethodId.mk (methods.apply_symm_apply i.index)⟩

theorem keeps_rearranged {labels methods : Equiv.Perm Nat} (hlabels : ∀ n, n < serial → labels n = n)
    (hmethods : ∀ n, n < size → methods n = n) : (rearranged labels methods).Keeps serial size where
  label l hl := by
    cases l with
    | written n => rfl
    | drawn n => exact congrArg Label.drawn (hlabels n hl)
  method i hi := congrArg MethodId.mk (hmethods i.index hi)

end Renaming

/-! ## Blocks in another order -/

section Blocks

variable {α : Type} [DecidableEq α] (width : α → Nat)

/-- How much stands in front of the first `a` of a list. -/
def startOf (a : α) : List α → Nat
  | [] => 0
  | b :: rest => if b = a then 0 else width b + startOf a rest

/-- Two blocks behind `start` trade places. -/
def tradePlaces (start first second : Nat) : Equiv.Perm Nat where
  toFun n :=
    if n < start then n
    else if n < start + first then n + second
    else if n < start + first + second then n - first
    else n
  invFun n :=
    if n < start then n
    else if n < start + second then n + first
    else if n < start + second + first then n - second
    else n
  left_inv n := by
    dsimp only
    split_ifs <;> omega
  right_inv n := by
    dsimp only
    split_ifs <;> omega

variable {width}

/-- In another order the blocks are as wide as before, so that one rearrangement takes each of them to where
it starts there. -/
theorem exists_rearrangement {l l' : List α} (h : l.Perm l') (hnodup : l.Nodup) (start : Nat) :
    ∃ e : Equiv.Perm Nat, (∀ n, n < start → e n = n)
      ∧ ∀ a ∈ l, ∀ k, k < width a →
        e (start + startOf width a l + k) = start + startOf width a l' + k := by
  induction h generalizing start with
  | nil => exact ⟨Equiv.refl _, fun _ _ => rfl, fun a ha => absurd ha List.not_mem_nil⟩
  | @cons b rest rest' _ ih =>
    -- the block in front stays, and the rest is rearranged behind it
    obtain ⟨e, hkept, hmoved⟩ := ih (List.nodup_cons.mp hnodup).2 (start + width b)
    refine ⟨e, fun n hn => hkept n (by omega), fun a ha k hk => ?_⟩
    rw [startOf, startOf]
    by_cases hba : b = a
    · subst hba
      rw [if_pos rfl, if_pos rfl]
      exact hkept _ (by omega)
    · have hrest := hmoved a ((List.mem_cons.mp ha).resolve_left (Ne.symm hba)) k hk
      rw [if_neg hba, if_neg hba, ← Nat.add_assoc, ← Nat.add_assoc]
      exact hrest
  | swap b c rest =>
    -- two neighbours of different widths trade places, and nothing behind them moves
    have hne : c ≠ b := fun heq => (List.nodup_cons.mp hnodup).1 (heq ▸ List.mem_cons_self)
    refine ⟨tradePlaces start (width c) (width b), fun n hn => if_pos hn, fun a ha k hk => ?_⟩
    have hplace : ∀ n, tradePlaces start (width c) (width b) n
        = if n < start then n
          else if n < start + width c then n + width b
          else if n < start + width c + width b then n - width c
          else n := fun _ => rfl
    have hstart : startOf width a (c :: b :: rest)
        = if c = a then 0 else width c + if b = a then 0 else width b + startOf width a rest := rfl
    have hstart' : startOf width a (b :: c :: rest)
        = if b = a then 0 else width b + if c = a then 0 else width c + startOf width a rest := rfl
    rw [hplace, hstart, hstart']
    by_cases hca : c = a
    · have hba : b ≠ a := fun heq => hne (hca.trans heq.symm)
      subst hca
      simp only [if_true, if_neg hba]
      split_ifs <;> omega
    · by_cases hba : b = a
      · subst hba
        simp only [if_true, if_neg hca]
        split_ifs <;> omega
      · simp only [if_neg hba, if_neg hca]
        split_ifs <;> omega
  | trans h _ ih ih' =>
    obtain ⟨e, hkept, hmoved⟩ := ih hnodup start
    obtain ⟨e', hkept', hmoved'⟩ := ih' (h.nodup_iff.mp hnodup) start
    refine ⟨e.trans e', fun n hn => ?_, fun a ha k hk => ?_⟩
    · rw [Equiv.trans_apply, hkept n hn, hkept' n hn]
    · rw [Equiv.trans_apply, hmoved a ha k hk, hmoved' a (h.mem_iff.mp ha) k hk]

end Blocks

end SetterLoom
