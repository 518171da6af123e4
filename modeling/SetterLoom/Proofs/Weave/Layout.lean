import SetterLoom.Proofs.Code.Interleave
import SetterLoom.Proofs.Code.Stores
import SetterLoom.Proofs.Weave.Drafted
import SetterLoom.Weave.Setter

/-!
# The layout of a woven setter

A setter is woven by edits made one after another, with positions found in the unedited body. What they
come to is one insertion at all positions at once: in front of everything the code that reads the values
before the change, in front of the first store the code that takes the handler back, and behind the
stores the code that subscribes it and the code that announces the change.

* `Layout.getElem?_place`, `Layout.extract_block`: where the parts of woven code stand.
* `Laid.insert`: one more insertion, in front of all that were made.
* `weaveAnchors_laid`, `weaveSubscription_laid`: what the edits leave.
-/

namespace SetterLoom
set_option autoImplicit false

/-- The code of the blocks of all positions, in order. -/
def Stream.injected (blocks : Nat → List Instruction) (s : Stream) : List Instruction :=
  (List.range (s.length + 1)).flatMap blocks

namespace BlockContext

/-- The code subscribes a handler through an accessor, and goes on behind itself if the value is null. -/
def Subscribes (ctx : BlockContext) (field : Field) (handler accessor : MethodId)
    (code : List Instruction) : Prop :=
  ∃ equals handlerConstructor last front,
    ctx.resolver.objectEquals ctx.module = .ok equals
      ∧ ctx.resolver.handlerConstructor ctx.module = .ok handlerConstructor
      ∧ code = front ++ [⟨last, .nop⟩]
      ∧ front.map (·.op)
        = ctx.subscriptionOps field equals handlerConstructor handler accessor last

theorem Subscribes.length_eq {ctx : BlockContext} {field : Field} {handler accessor : MethodId}
    {code : List Instruction} (h : ctx.Subscribes field handler accessor code) :
    code.length = (if (ctx.module.type? field.type).any (·.isValue) then 12 else 11) + 1 := by
  obtain ⟨equals, handlerConstructor, last, front, -, -, rfl, hops⟩ := h
  rw [List.length_append, ← List.length_map (·.op), hops, length_subscriptionOps]
  rfl

end BlockContext

/-- The code that is woven into a setter, by its place. `before` gives the slots of the values before
the change, and each anchor has slots of its own for the values after it. -/
structure Layout (ctx : BlockContext) (subscription : Option (Field × Event × MethodId))
    (called : List String) (anchors : List Nat) (before : String → Bool → UInt16) where
  prologue : List Instruction
  unsubscribe : List Instruction
  subscribe : List Instruction
  notification : Nat → List Instruction
  prologue_ops : prologue.map (·.op)
    = ctx.entryOps (ctx.targetsReadings called ctx.property.targets) before
  unsubscribe_ops : subscription.elim (unsubscribe = []) fun (field, event, handler) =>
    ∃ remove, event.remove = some remove ∧ ctx.Subscribes field handler remove unsubscribe
  subscribe_ops : subscription.elim (subscribe = []) fun (field, event, handler) =>
    ∃ add, event.add = some add ∧ ctx.Subscribes field handler add subscribe
  notification_ops : ∀ p ∈ anchors, ∃ after, after.length = ctx.property.targets.length
    ∧ (notification p).map (·.op) = ctx.changeOps called before after

namespace Layout

variable {ctx : BlockContext} {subscription : Option (Field × Event × MethodId)}
  {called : List String} {anchors : List Nat} {before : String → Bool → UInt16}

/-- What stands in front of a position of the unedited code. -/
def block (l : Layout ctx subscription called anchors before) (code : Stream) (p : Nat) :
    List Instruction :=
  (if anchors.head?.map (BlockContext.storePosition code) = some p then l.unsubscribe else [])
    ++ (if anchors.head? = some p then l.subscribe else [])
    ++ if p ∈ anchors then l.notification p else []

/-- The woven code. -/
def weave (l : Layout ctx subscription called anchors before) (code : Stream) : Stream :=
  l.prologue ++ code.interleave (l.block code)

/-- All instructions of the woven code that are not of the unedited one. -/
def injected (l : Layout ctx subscription called anchors before) (code : Stream) :
    List Instruction :=
  l.prologue ++ code.injected (l.block code)

variable (l : Layout ctx subscription called anchors before) {code : Stream} {p x : Nat}

/-- The start of a block in the woven code. -/
def start (code : Stream) (p : Nat) : Nat :=
  l.prologue.length + Stream.blockStart (l.block code) p

/-- The place of an instruction of the unedited code in the woven one. -/
def place (code : Stream) (p : Nat) : Nat :=
  l.prologue.length + Stream.placeOf (l.block code) p

theorem place_eq (code : Stream) (p : Nat) :
    l.place code p = l.start code p + (l.block code p).length := by
  simp only [place, start, Stream.placeOf, Nat.add_assoc]

theorem start_succ (code : Stream) (p : Nat) : l.start code (p + 1) = l.place code p + 1 := by
  simp only [place, start, Stream.placeOf, Stream.blockStart, Nat.add_assoc]

theorem getElem?_block {k : Nat} (hp : p ≤ code.length) (hk : k < (l.block code p).length) :
    (l.weave code)[l.start code p + k]? = (l.block code p)[k]? := by
  rw [weave, start, Nat.add_assoc, List.getElem?_append_right (Nat.le_add_right _ _),
    Nat.add_sub_cancel_left]
  exact Stream.getElem?_interleave_block (l.block code) code hp hk

theorem getElem?_place (hp : p ≤ code.length) : (l.weave code)[l.place code p]? = code[p]? := by
  rw [weave, place, List.getElem?_append_right (Nat.le_add_right _ _), Nat.add_sub_cancel_left]
  exact Stream.getElem?_interleave_instruction (l.block code) code hp

/-- Where an instruction of the unedited code is found in the woven one, it was put, if no instruction of the
woven code comes twice. -/
theorem place_of_nodup {woven : Stream} (hcode : woven = l.weave code) (hnodup : woven.Nodup)
    (hp : p < code.length) (hx : woven[x]? = code[p]?) : l.place code p = x := by
  subst hcode
  have hsame := hx.trans (l.getElem?_place (Nat.le_of_lt hp)).symm
  have hlt : x < (l.weave code).length := by
    rw [List.getElem?_eq_getElem hp] at hx
    exact (List.getElem?_eq_some_iff.mp hx).1
  exact ((List.getElem?_inj hlt hnodup).mp hsame).symm

theorem extract_prologue : (l.weave code).extract 0 (l.start code 0) = l.prologue := by
  have hstart : l.start code 0 = l.prologue.length := Nat.add_zero _
  rw [hstart, List.extract_eq_take_drop, List.drop_zero, Nat.sub_zero, weave, List.take_left]

/-- A block is what stands between its start and the instruction of its position. -/
theorem extract_block (hp : p ≤ code.length) :
    (l.weave code).extract (l.start code p) (l.place code p) = l.block code p := by
  have hlength : l.place code p - l.start code p = (l.block code p).length := by
    rw [place_eq, Nat.add_sub_cancel_left]
  rw [List.extract_eq_take_drop, hlength]
  apply List.ext_getElem?
  intro k
  rw [List.getElem?_take]
  split
  · rw [List.getElem?_drop, l.getElem?_block hp ‹_›]
  · rw [List.getElem?_eq_none (Nat.le_of_not_lt ‹_›)]

end Layout

/-! ## One insertion -/

private theorem flatMap_putBefore_of_notMem {blocks : Nat → List Instruction} {p : Nat}
    (code : List Instruction) {positions : List Nat} (h : p ∉ positions) :
    positions.flatMap (Stream.putBefore blocks p code) = positions.flatMap blocks := by
  induction positions with
  | nil => rfl
  | cons q rest ih =>
    rw [List.mem_cons, not_or] at h
    rw [List.flatMap_cons, List.flatMap_cons, ih h.2, Stream.putBefore, if_neg (Ne.symm h.1)]

theorem Stream.injected_putBefore (blocks : Nat → List Instruction) {p : Nat} {s : Stream}
    (code : List Instruction) (hp : p ≤ s.length) :
    (s.injected (putBefore blocks p code)).Perm (s.injected blocks ++ code) := by
  have hmem : p ∈ List.range (s.length + 1) := List.mem_range.mpr (by omega)
  obtain ⟨front, back, hsplit⟩ := List.append_of_mem hmem
  have hnodup : (front ++ p :: back).Nodup := hsplit ▸ List.nodup_range
  rw [List.nodup_append, List.nodup_cons] at hnodup
  have hfront : p ∉ front := fun h => hnodup.2.2 p h p List.mem_cons_self rfl
  unfold Stream.injected
  rw [hsplit, List.flatMap_append, List.flatMap_append, List.flatMap_cons, List.flatMap_cons,
    flatMap_putBefore_of_notMem code hfront, flatMap_putBefore_of_notMem code hnodup.2.1.1,
    putBefore, if_pos rfl, List.append_assoc, List.append_assoc]
  refine List.Perm.append_left _ ?_
  exact List.perm_append_comm

namespace BlockContext

variable {ctx : BlockContext} {body : Body} {serial : Nat} {readings : List Reading}
  {blocks : Nat → List Instruction} {d d' : Draft}

/-- The labels of the code are the drawn ones of the given numbers, each once. -/
def DrawnFrom (serial count : Nat) (code : List Instruction) : Prop :=
  (code.map (·.label)).Perm ((List.range' serial count).map .drawn)

/-- A draft whose code is the unedited one with a block in front of each position. -/
structure Laid (ctx : BlockContext) (body : Body) (serial : Nat) (readings : List Reading)
    (blocks : Nat → List Instruction) (d : Draft) : Prop where
  drafted : Drafted ctx body readings ((body.code.injected blocks).map (·.op)) d
  code : d.body.code = body.code.interleave blocks
  labels : ∃ count, d.serial = serial + count ∧ DrawnFrom serial count (body.code.injected blocks)

theorem laid_start (ctx : BlockContext) (body : Body) (serial : Nat) :
    Laid ctx body serial [] (fun _ => []) { body, serial } where
  drafted := by
    have hnone : body.code.injected (fun _ => []) = [] := by
      unfold Stream.injected
      exact List.flatMap_eq_nil_iff.mpr fun _ _ => rfl
    rw [hnone]
    exact drafted_start ctx body serial
  code := (Stream.interleave_of_empty body.code).symm
  labels := by
    refine ⟨0, rfl, ?_⟩
    unfold DrawnFrom Stream.injected
    rw [List.flatMap_eq_nil_iff.mpr fun _ _ => rfl]
    exact List.Perm.refl _

theorem Drafted.of_perm {ops ops' : List Op} (h : Drafted ctx body readings ops d)
    (hperm : ops'.Perm ops) : Drafted ctx body readings ops' d := by
  obtain ⟨new, hslots, hstored⟩ := h.slots
  refine ⟨h.captures, h.prologue, new, hslots, List.Perm.trans ?_ hstored⟩
  exact (hperm.append_left d.prologue).filterMap _

theorem drawnFrom_append {count count' : Nat} {code code' : List Instruction}
    (h : DrawnFrom serial count code) (h' : DrawnFrom (serial + count) count' code') :
    DrawnFrom serial (count + count') (code ++ code') := by
  have hrange : List.range' serial count ++ List.range' (serial + 1 * count) count'
      = List.range' serial (count + count') := List.range'_append
  rw [Nat.one_mul] at hrange
  unfold DrawnFrom
  rw [List.map_append, ← hrange, List.map_append]
  exact List.Perm.append h h'

theorem drawnFrom_drawFrom (serial : Nat) (ops : List Op) :
    DrawnFrom serial ops.length (Instruction.drawFrom serial ops) := by
  unfold DrawnFrom
  induction ops generalizing serial with
  | nil => exact List.Perm.refl _
  | cons op rest ih =>
    rw [Instruction.drawFrom, List.map_cons, List.length_cons, List.range'_succ, List.map_cons]
    exact (ih (serial + 1)).cons _

theorem Laid.insert {readings' : List Reading} {d₁ : Draft} {position count : Nat}
    {code : List Instruction} (h : Laid ctx body serial readings blocks d)
    (hdrafted : Drafted ctx body readings'
      ((body.code.injected blocks).map (·.op) ++ code.map (·.op)) d₁)
    (hcode : d₁.body.code = d.body.code) (hserial : d₁.serial = d.serial + count)
    (hlabels : DrawnFrom d.serial count code) (hlow : ∀ p, p < position → blocks p = [])
    (hposition : position ≤ body.code.length)
    (hrun : (Draft.insert position code).run.run d₁ = (.ok (), d')) :
    Laid ctx body serial readings' (Stream.putBefore blocks position code) d'
      ∧ d'.captures = d₁.captures := by
  have hle : position ≤ d₁.body.code.length := by
    rw [hcode, h.code]
    exact Nat.le_trans hposition (Stream.length_le_interleave blocks body.code)
  have hinserted : (Draft.insert position code).run.run d₁
      = (.ok (), { d₁ with body := { d₁.body with
          code := d₁.body.code.take position ++ code ++ d₁.body.code.drop position } }) := by
    show Draft.insert position code d₁ = _
    simp only [Draft.insert, Stream.insertAt_eq_ok code hle]
  rw [hinserted, Prod.mk.injEq] at hrun
  obtain rfl := hrun.2
  obtain ⟨count₀, hcount₀, hlabels₀⟩ := h.labels
  have hperm := Stream.injected_putBefore blocks code hposition
  refine ⟨⟨?_, ?_, count₀ + count, ?_, ?_⟩, rfl⟩
  · have hops := (hperm.map (·.op)).trans (List.Perm.of_eq (List.map_append))
    have hmoved := hdrafted.of_perm hops
    exact ⟨hmoved.captures, hmoved.prologue, hmoved.slots⟩
  · show d₁.body.code.take position ++ code ++ d₁.body.code.drop position = _
    rw [hcode, h.code]
    exact Stream.insertAt_interleave code hlow hposition
  · show d₁.serial = _
    rw [hserial, hcount₀, Nat.add_assoc]
  · rw [hcount₀] at hlabels
    have hall : DrawnFrom serial (count₀ + count) (body.code.injected blocks ++ code) :=
      drawnFrom_append hlabels₀ hlabels
    have hsame := hperm.map fun i : Instruction => i.label
    exact hsame.trans hall

/-! ## The anchors -/

theorem labelled_ok {ops : List Op} {code : List Instruction}
    (h : (Draft.labelled ops).run.run d = (.ok code, d')) :
    code = Instruction.drawFrom d.serial ops
      ∧ d' = { d with serial := d.serial + ops.length } := by
  obtain ⟨hcode, hd⟩ := Prod.mk.inj h
  exact ⟨(Except.ok.inj hcode).symm, hd.symm⟩

private theorem Drafted.of_firstReadings {ops : List Op} {readings' : List Reading}
    (h : Drafted ctx body readings ops d)
    (hfirst : firstReadings readings' = firstReadings readings) :
    Drafted ctx body readings' ops d := by
  refine ⟨by rw [hfirst]; exact h.captures, fun before hb => ?_, h.slots⟩
  rw [entryOps, hfirst]
  exact h.prologue before hb

/-- The code of one anchor is put in front of all that was inserted before. -/
theorem weaveAnchor_laid {called : List String} {anchor : Nat}
    (h : Laid ctx body serial readings blocks d) (hlow : ∀ p, p < anchor → blocks p = [])
    (hanchor : anchor ≤ body.code.length)
    (hrun : (ctx.weaveAnchor called anchor).run.run d = (.ok (), d')) :
    ∃ code, Laid ctx body serial (readings ++ ctx.targetsReadings called ctx.property.targets)
        (Stream.putBefore blocks anchor code) d'
      ∧ d.captures ⊆ d'.captures
      ∧ ∀ before, d'.Agrees before → ∃ after, after.length = ctx.property.targets.length
        ∧ code.map (·.op) = ctx.changeOps called before after := by
  obtain ⟨ops, d₁, hmade, hrest⟩ := Steps.bind_ok.mp hrun
  obtain ⟨code, d₂, hlabelled, hinsert⟩ := Steps.bind_ok.mp hrest
  obtain ⟨hdrafted, hgrows, hspec⟩ := makes_changeBlock ctx called h.drafted hmade
  obtain ⟨rfl, rfl⟩ := labelled_ok hlabelled
  have hops : (Instruction.drawFrom d₁.serial ops).map (·.op) = ops :=
    Instruction.map_op_drawFrom d₁.serial ops
  have hlabels : DrawnFrom d.serial ops.length (Instruction.drawFrom d₁.serial ops) := by
    rw [hgrows.serial]
    exact drawnFrom_drawFrom d.serial ops
  have hserial : d₁.serial + ops.length = d.serial + ops.length := by rw [hgrows.serial]
  have hdrafted' : Drafted ctx body (readings ++ ctx.targetsReadings called ctx.property.targets)
      ((body.code.injected blocks).map (·.op)
        ++ (Instruction.drawFrom d₁.serial ops).map (·.op))
      { d₁ with serial := d₁.serial + ops.length } := by
    rw [hops]
    exact ⟨hdrafted.captures, hdrafted.prologue, hdrafted.slots⟩
  obtain ⟨hlaid, hcaptures⟩ :=
    h.insert hdrafted' hgrows.code hserial hlabels hlow hanchor hinsert
  refine ⟨_, hlaid, ?_, fun before hb => ?_⟩
  · rw [hcaptures]
    exact hgrows.captures
  · obtain ⟨after, hlen, hcode⟩ := hspec before fun c hc => hb c (hcaptures ▸ hc)
    exact ⟨after, hlen, hops.trans hcode⟩

/-- The anchors are woven from the last one to the first. -/
theorem weaveAnchors_laid {called : List String} {anchors : List Nat}
    (hsorted : anchors.Pairwise (· < ·)) (hle : ∀ a ∈ anchors, a ≤ body.code.length)
    (hrun : (anchors.reverse.forM (ctx.weaveAnchor called)).run.run { body, serial }
      = (.ok (), d')) :
    ∃ blocks, Laid ctx body serial
        (if anchors = [] then [] else ctx.targetsReadings called ctx.property.targets) blocks d'
      ∧ (∀ p, p ∉ anchors → blocks p = [])
      ∧ ∀ before, d'.Agrees before → ∀ p ∈ anchors, ∃ after,
        after.length = ctx.property.targets.length
          ∧ (blocks p).map (·.op) = ctx.changeOps called before after := by
  -- by induction on the anchors in ascending order, although the last one is woven
  -- first: there is nothing in front of the next one yet
  induction anchors generalizing d' with
  | nil =>
    obtain ⟨-, rfl⟩ := Steps.pure_ok.mp hrun
    exact ⟨fun _ => [], laid_start ctx body serial, fun _ _ => rfl, fun _ _ p hp => nomatch hp⟩
  | cons anchor rest ih =>
    rw [List.reverse_cons, List.forM_eq_forM, List.forM_append] at hrun
    obtain ⟨_, d₁, hrest, hlast⟩ := Steps.bind_ok.mp hrun
    rw [List.forM_cons] at hlast
    obtain ⟨_, d₂, hanchor, hpure⟩ := Steps.bind_ok.mp hlast
    obtain ⟨-, rfl⟩ := Steps.pure_ok.mp hpure
    rw [List.pairwise_cons] at hsorted
    obtain ⟨blocks, hlaid, hnone, hblocks⟩ :=
      ih hsorted.2 (fun a ha => hle a (List.mem_cons_of_mem _ ha)) hrest
    have hlow : ∀ p, p < anchor → blocks p = [] := fun p hp =>
      hnone p fun hmem => absurd (hsorted.1 p hmem) (by omega)
    have hout : anchor ∉ rest := fun hmem => Nat.lt_irrefl _ (hsorted.1 anchor hmem)
    obtain ⟨code, hlaid', hcaptures, hcode⟩ :=
      weaveAnchor_laid hlaid hlow (hle anchor List.mem_cons_self) hanchor
    refine ⟨Stream.putBefore blocks anchor code, ?_, fun p hp => ?_, fun before hb p hp => ?_⟩
    · rw [if_neg (List.cons_ne_nil _ _)]
      -- the anchors want the same values, so only the first of them reads any
      refine ⟨hlaid'.drafted.of_firstReadings ?_, hlaid'.code, hlaid'.labels⟩
      split
      · rfl
      · exact (firstReadings_append_of_subset fun _ h => h).symm
    · rw [List.mem_cons, not_or] at hp
      rw [Stream.putBefore, if_neg hp.1, hnone p hp.2]
    · rcases List.mem_cons.mp hp with rfl | hmem
      · rw [Stream.putBefore, if_pos rfl, hnone p hout, List.append_nil]
        exact hcode before hb
      · have hne : p ≠ anchor := fun h => hout (h ▸ hmem)
        rw [Stream.putBefore, if_neg hne]
        exact hblocks before (fun c hc => hb c (hcaptures hc)) p hmem

/-! ## The subscription -/

theorem storedSlots_subscriptionOps (ctx : BlockContext) (field : Field)
    (equals handlerConstructor handler accessor : MethodId) (last : Label) :
    storedSlots (ctx.subscriptionOps field equals handlerConstructor handler accessor last)
      = [] := by
  unfold subscriptionOps
  dsimp only
  split <;> rfl

theorem subscriptionBlock_ok {field : Field} {handler accessor : MethodId}
    {code : List Instruction}
    (hrun : (ctx.subscriptionBlock field handler accessor).run.run d = (.ok code, d')) :
    ctx.Subscribes field handler accessor code ∧ storedSlots (code.map (·.op)) = []
      ∧ d' = { d with serial := d.serial + code.length }
      ∧ DrawnFrom d.serial code.length code := by
  obtain ⟨equals, d₁, hliftEquals, hrest₁⟩ := Steps.bind_ok.mp hrun
  obtain ⟨hequals, rfl⟩ := Steps.liftExcept_ok.mp hliftEquals
  obtain ⟨handlerConstructor, d₂, hliftConstructor, hrest₂⟩ := Steps.bind_ok.mp hrest₁
  obtain ⟨hconstructor, rfl⟩ := Steps.liftExcept_ok.mp hliftConstructor
  obtain ⟨_, d₀, hget, hrest₃⟩ := Steps.bind_ok.mp hrest₂
  obtain ⟨rfl, rfl⟩ := Steps.get_ok.mp hget
  obtain ⟨nop, d₃, hnop, hrest₄⟩ := Steps.bind_ok.mp hrest₃
  obtain ⟨rfl, rfl⟩ := labelled_ok hnop
  obtain ⟨front, d₄, hfront, hpure⟩ := Steps.bind_ok.mp hrest₄
  obtain ⟨rfl, rfl⟩ := labelled_ok hfront
  obtain ⟨rfl, rfl⟩ := Steps.pure_ok.mp hpure
  have hops := Instruction.map_op_drawFrom (d₀.serial + 1)
    (ctx.subscriptionOps field equals handlerConstructor handler accessor (.drawn d₀.serial))
  refine ⟨⟨equals, handlerConstructor, .drawn d₀.serial, _, hequals, hconstructor, rfl, hops⟩,
    ?_, ?_, ?_⟩
  · rw [List.map_append, storedSlots_append]
    refine List.append_eq_nil_iff.mpr ⟨?_, rfl⟩
    exact (congrArg storedSlots hops).trans (storedSlots_subscriptionOps ..)
  · rw [List.length_append, Instruction.length_drawFrom, Instruction.length_drawFrom,
      Nat.add_comm (List.length _), ← Nat.add_assoc]
  · -- the label of the end is drawn first
    have hends := drawnFrom_append (drawnFrom_drawFrom d₀.serial [.nop])
      (drawnFrom_drawFrom (d₀.serial + 1)
        (ctx.subscriptionOps field equals handlerConstructor handler accessor
          (.drawn d₀.serial)))
    rw [List.length_append, Instruction.length_drawFrom, Instruction.length_drawFrom,
      Nat.add_comm (List.length _)]
    have hcomm : ∀ front : List Instruction, (Instruction.drawFrom d₀.serial [.nop] ++ front).Perm
        (front ++ Instruction.drawFrom d₀.serial [.nop]) := fun _ => List.perm_append_comm
    exact ((hcomm _).map fun i : Instruction => i.label).symm.trans hends

private theorem insertSubscription_laid {field : Field} {handler accessor : MethodId}
    {position : Nat} (h : Laid ctx body serial readings blocks d)
    (hlow : ∀ p, p < position → blocks p = []) (hposition : position ≤ body.code.length)
    (hrun : (ctx.subscriptionBlock field handler accessor >>= Draft.insert position).run.run d
      = (.ok (), d')) :
    ∃ code, ctx.Subscribes field handler accessor code ∧ d'.captures = d.captures
      ∧ Laid ctx body serial readings (Stream.putBefore blocks position code) d' := by
  obtain ⟨code, d₁, hblock, hinsert⟩ := Steps.bind_ok.mp hrun
  obtain ⟨hsubscribes, hstored, rfl, hlabels⟩ := subscriptionBlock_ok hblock
  have hdrafted := h.drafted.append hstored
  have hdrafted' : Drafted ctx body readings
      ((body.code.injected blocks).map (·.op) ++ code.map (·.op))
      { d with serial := d.serial + code.length } :=
    ⟨hdrafted.captures, hdrafted.prologue, hdrafted.slots⟩
  obtain ⟨hlaid, hcaptures⟩ := h.insert hdrafted' rfl rfl hlabels hlow hposition hinsert
  exact ⟨code, hsubscribes, hcaptures, hlaid⟩

/-- In front of the first insertion nothing has moved. -/
theorem getElem?_interleave_front {code : Stream} {p anchor : Nat} (hlow : ∀ p, p < anchor → blocks p = [])
    (hp : p < anchor) (hle : anchor ≤ code.length) : (code.interleave blocks)[p]? = code[p]? := by
  have hplace : Stream.placeOf blocks p = p := by
    have hstart : ∀ q, q ≤ p → Stream.blockStart blocks q = q := by
      intro q
      induction q with
      | zero => exact fun _ => rfl
      | succ q ih =>
        intro hq
        rw [Stream.blockStart, ih (by omega), hlow q (by omega), List.length_nil]
    rw [Stream.placeOf, hstart p (Nat.le_refl p), hlow p hp, List.length_nil, Nat.add_zero]
  have hsame := Stream.getElem?_interleave_instruction blocks code (p := p) (by omega)
  rwa [hplace] at hsame

private theorem storePosition_interleave {code : Stream} {anchor : Nat} (hpos : 0 < anchor)
    (hlow : ∀ p, p < anchor → blocks p = []) (hle : anchor ≤ code.length) :
    storePosition (code.interleave blocks) anchor = storePosition code anchor := by
  unfold storePosition
  rw [getElem?_interleave_front hlow (by omega) hle]

/-- Subscribing and taking back are two more insertions, the second one in front of the first. -/
theorem weaveSubscription_laid {field : Field} {event : Event} {handler : MethodId}
    {anchor : Nat} (h : Laid ctx body serial readings blocks d) (hpos : 0 < anchor)
    (hlow : ∀ p, p < anchor → blocks p = []) (hle : anchor ≤ body.code.length)
    (hrun : (ctx.weaveSubscription field event handler anchor).run.run d = (.ok (), d')) :
    ∃ add remove subscribe unsubscribe, event.add = some add ∧ event.remove = some remove
      ∧ ctx.Subscribes field handler add subscribe
      ∧ ctx.Subscribes field handler remove unsubscribe ∧ d'.captures = d.captures
      ∧ Laid ctx body serial readings
        (Stream.putBefore (Stream.putBefore blocks anchor subscribe)
          (storePosition body.code anchor) unsubscribe) d' := by
  have hstore : storePosition body.code anchor < anchor := by
    unfold storePosition
    split <;> omega
  unfold weaveSubscription at hrun
  split at hrun
  · rename_i add hadd
    split at hrun
    · rename_i remove hremove
      obtain ⟨subscribe, d₀, hblock, hrest₁⟩ := Steps.bind_ok.mp hrun
      obtain ⟨_, d₁, hinsert, hrest₂⟩ := Steps.bind_ok.mp hrest₁
      obtain ⟨code, hsubscribes, hcaptures, hlaid⟩ :=
        insertSubscription_laid h hlow hle
          (Steps.bind_ok.mpr ⟨subscribe, d₀, hblock, hinsert⟩)
      obtain ⟨_, _, hget, hrest₃⟩ := Steps.bind_ok.mp hrest₂
      obtain ⟨rfl, rfl⟩ := Steps.get_ok.mp hget
      have hnone : ∀ p, p < anchor → Stream.putBefore blocks anchor code p = [] := by
        intro p hp
        rw [Stream.putBefore, if_neg (by omega), hlow p hp]
      -- the position is counted back in the code with the first block, but
      -- no block stands in front of the anchor
      rw [hlaid.code, storePosition_interleave hpos hnone hle] at hrest₃
      obtain ⟨code', hsubscribes', hcaptures', hlaid'⟩ :=
        insertSubscription_laid hlaid
          (fun p hp => hnone p (by omega)) (by omega) hrest₃
      exact ⟨add, remove, code, code', hadd, hremove, hsubscribes, hsubscribes',
        hcaptures'.trans hcaptures, hlaid'⟩
    · exact absurd hrun Steps.throw_not_ok
  · exact absurd hrun Steps.throw_not_ok

end BlockContext

end SetterLoom
