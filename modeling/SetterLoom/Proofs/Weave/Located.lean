import SetterLoom.Proofs.Weave.Followed
import SetterLoom.Proofs.Weave.Reasons

/-!
# Where the store in front of an anchor begins

The stores into a field are found by one scan for two patterns of different width, and the anchors are the
positions behind them. The weaver goes back from the lowest anchor to the store in front of it when the blocks
of all anchors and the subscription are in place. These stand behind the store, so the position it comes to is
the one where the store begins, in the unedited code as well as in the code it looks at.

* `Stream.mem_stores_iff`: the listed positions, by the instructions in front of them.
* `Stream.beginsStore_storePosition`: going back from a listed position.
* `Weaving.edits_taken_back`: what the edits do behind that.
* `Weaving.stores_located`: the result.
-/

namespace SetterLoom
set_option autoImplicit false

namespace Stream

variable {name : String} {s s' : Stream} {anchor position : Nat}

/-- The store that ends in front of the anchor begins at the position: the instruction there stores into a
field of the name, or takes its address for the next one to clear the field. -/
def BeginsStore (name : String) (s : Stream) (anchor position : Nat) : Prop :=
  ∃ i, s[position]? = some i ∧ i.op.field?.map (·.name) = some name
    ∧ (anchor = position + 1 ∧ i.code = .stfld
      ∨ anchor = position + 2 ∧ i.code = .ldflda
        ∧ ∃ j, s[position + 1]? = some j ∧ j.code = .initobj)

theorem mem_stores_iff {p : Nat} :
    p ∈ s.stores name ↔
      (∃ i, 1 ≤ p ∧ s[p - 1]? = some i ∧ i.code = .stfld ∧ i.op.field?.map (·.name) = some name)
        ∨ ∃ i j, 2 ≤ p ∧ s[p - 1]? = some j ∧ j.code = .initobj ∧ s[p - 2]? = some i
          ∧ i.code = .ldflda ∧ i.op.field?.map (·.name) = some name := by
  rw [mem_stores, StoreEndsAt]
  simp only [Op.storesTo_iff, Op.addresses_iff]
  constructor
  · rintro (h | ⟨i, j, hp, hi, ⟨hcode, hname⟩, hj, hinit⟩)
    · exact .inl h
    · exact .inr ⟨i, j, hp, hj, hinit, hi, hcode, hname⟩
  · rintro (h | ⟨i, j, hp, hj, hinit, hi, hcode, hname⟩)
    · exact .inl h
    · exact .inr ⟨i, j, hp, hi, ⟨hcode, hname⟩, hj, hinit⟩

/-- Going back from a position that is listed leads to where the store begins. -/
theorem beginsStore_storePosition (h : anchor ∈ s.stores name) :
    s.BeginsStore name anchor (BlockContext.storePosition s anchor) := by
  rcases Layout.firstStore_cases h with
    ⟨i, hpos, hposition, hi, hstore, -⟩ | ⟨i, j, hpos, hposition, hi, haddress, hj, hinit, -⟩
  · obtain ⟨hcode, hname⟩ := Op.storesTo_iff.mp hstore
    rw [hposition]
    exact ⟨i, hi, hname, .inl ⟨by omega, hcode⟩⟩
  · obtain ⟨hcode, hname⟩ := Op.addresses_iff.mp haddress
    have hnext : anchor - 2 + 1 = anchor - 1 := by omega
    rw [hposition]
    exact ⟨i, hi, hname, .inr ⟨by omega, hcode, j, by rw [hnext, hj], hinit⟩⟩

/-- Where a store begins only depends on the code in front of the anchor. -/
theorem BeginsStore.of_front (h : s.BeginsStore name anchor position)
    (hfront : ∀ p, p < anchor → s'[p]? = s[p]?) : s'.BeginsStore name anchor position := by
  obtain ⟨i, hi, hname, ⟨hanchor, hcode⟩ | ⟨hanchor, hcode, j, hj, hinit⟩⟩ := h
  · exact ⟨i, (hfront position (by omega)).trans hi, hname, .inl ⟨hanchor, hcode⟩⟩
  · exact ⟨i, (hfront position (by omega)).trans hi, hname, .inr ⟨hanchor, hcode, j,
      (hfront (position + 1) (by omega)).trans hj, hinit⟩⟩

theorem storePosition_of_front (hpos : 0 < anchor) (hfront : ∀ p, p < anchor → s'[p]? = s[p]?) :
    BlockContext.storePosition s' anchor = BlockContext.storePosition s anchor := by
  unfold BlockContext.storePosition
  rw [hfront (anchor - 1) (by omega)]

theorem BeginsStore.lt_length (h : s.BeginsStore name anchor position) : position < s.length := by
  obtain ⟨i, hi, -⟩ := h
  exact (List.getElem?_eq_some_iff.mp hi).1

end Stream

namespace Weaving

open Draft Steps

variable {ctx : BlockContext} {called : List String} {body : Body} {serial first position : Nat} {field : Field}
  {event : Event} {handler add remove : MethodId} {d d' : Draft}

/-- When the subscription is in place, going back from the first anchor leads to where the first store begins,
as it does in the unedited code. -/
theorem beginsStore_subscribing (hbacking : ctx.property.backing = some field)
    (hfirst : (body.code.stores field.name).head? = some first)
    (hposition : BlockContext.storePosition body.code first = position)
    (hrun : (subscribing ctx called (ctx.property.anchors body.code).1 first field handler add).run.run
      { body, serial } = (.ok (), d)) :
    BlockContext.storePosition d.body.code first = position
      ∧ d.body.code.BeginsStore field.name first position
      ∧ d.body.code[position]? = body.code[position]? := by
  have hmem : first ∈ body.code.stores field.name := List.mem_of_head? hfirst
  have hpos : 0 < first := Stream.pos_of_mem_stores hmem
  have hanchors : ctx.property.anchors body.code = (body.code.stores field.name, true) :=
    PropertyPlan.fst_anchors_of_stores hbacking (List.ne_nil_of_mem hmem)
  have hhead : (ctx.property.anchors body.code).1.head? = some first := by rw [hanchors, hfirst]
  have hfront : ∀ p, p < first → d.body.code[p]? = body.code[p]? := fun p hp =>
    getElem?_subscribing hhead hrun hp
  subst hposition
  exact ⟨Stream.storePosition_of_front hpos hfront,
    (Stream.beginsStore_storePosition hmem).of_front hfront, hfront _ (Layout.storePosition_lt hpos)⟩

/-- The rest of the edits takes the handler back in front of the store, and puts code in front of it all. -/
theorem edits_taken_back {anchors : List Nat} (hfirst : anchors.head? = some first)
    (hadd : event.add = some add) (hremove : event.remove = some remove)
    (hposition : ∀ d, (subscribing ctx called anchors first field handler add).run.run { body, serial }
      = (.ok (), d) → BlockContext.storePosition d.body.code first = position ∧ position ≤ d.body.code.length)
    (hrun : (edits ctx called anchors (some (field, event, handler))).run.run { body, serial }
      = (.ok (), d')) :
    ∃ d unsubscribe prologue,
      (subscribing ctx called anchors first field handler add).run.run { body, serial } = (.ok (), d)
        ∧ ctx.Subscribes field handler remove unsubscribe
        ∧ d'.body.code
          = prologue ++ (d.body.code.take position ++ unsubscribe ++ d.body.code.drop position) := by
  rw [edits_subscribing ctx called field handler hadd hremove hfirst] at hrun
  obtain ⟨_, d₁, hsubscribing, hback⟩ := bind_ok.mp hrun
  obtain ⟨_, d₀, hget, hunsubscribe⟩ := bind_ok.mp hback
  obtain ⟨rfl, rfl⟩ := get_ok.mp hget
  obtain ⟨rfl, hle⟩ := hposition d₀ hsubscribing
  obtain ⟨unsubscribe, d₂, hblock, hinserted⟩ := bind_ok.mp hunsubscribe
  obtain ⟨hsubscribes, -, rfl, -⟩ := BlockContext.subscriptionBlock_ok hblock
  obtain ⟨_, d₃, hinsert, hprologue⟩ := bind_ok.mp hinserted
  obtain ⟨_, d₄, hgetPrologue, hlabelling⟩ := bind_ok.mp hprologue
  obtain ⟨rfl, rfl⟩ := get_ok.mp hgetPrologue
  obtain ⟨prologue, d₅, hlabelled, hprepend⟩ := bind_ok.mp hlabelling
  obtain ⟨-, rfl⟩ := BlockContext.labelled_ok hlabelled
  obtain rfl := (Prod.mk.inj hprepend).2
  have hcode := insert_run (d := { d₀ with serial := d₀.serial + unsubscribe.length }) unsubscribe hle
  rw [hinsert] at hcode
  exact ⟨d₀, unsubscribe, prologue, hsubscribing, hsubscribes, congrArg (prologue ++ ·) hcode⟩

/-- **Stores are found exactly.** The positions behind the stores into a field of a name are strictly
ascending, each is a position behind an instruction of the code, and a position is one of them if and only if
the instruction in front of it stores into a field of the name, or clears one whose address the instruction
before that takes.

So the position that the weaver goes back to from the lowest of them, when the blocks of all anchors and the
subscription are in place, is that of the instruction the store begins with; it is the position in the
unedited code, and the handler is taken back in front of it. -/
theorem stores_located :
    (∀ (s : Stream) (name : String),
      (s.stores name).Pairwise (· < ·)
        ∧ (∀ p ∈ s.stores name, 1 ≤ p ∧ p ≤ s.length)
        ∧ ∀ p, p ∈ s.stores name ↔
          (∃ i, 1 ≤ p ∧ s[p - 1]? = some i ∧ i.code = .stfld ∧ i.op.field?.map (·.name) = some name)
            ∨ ∃ i j, 2 ≤ p ∧ s[p - 1]? = some j ∧ j.code = .initobj ∧ s[p - 2]? = some i
              ∧ i.code = .ldflda ∧ i.op.field?.map (·.name) = some name)
      ∧ ∀ (ctx : BlockContext) (called : List String) (body : Body) (serial : Nat) (field : Field)
          (event : Event) (handler add remove : MethodId) (first position : Nat),
        ctx.property.backing = some field → (body.code.stores field.name).head? = some first →
        event.add = some add → event.remove = some remove →
        BlockContext.storePosition body.code first = position →
          body.code.BeginsStore field.name first position
            ∧ (∀ d, (subscribing ctx called (ctx.property.anchors body.code).1 first field handler add).run.run
                { body, serial } = (.ok (), d) →
              BlockContext.storePosition d.body.code first = position
                ∧ d.body.code.BeginsStore field.name first position
                ∧ d.body.code[position]? = body.code[position]?)
            ∧ ∀ d', (edits ctx called (ctx.property.anchors body.code).1 (some (field, event, handler))).run.run
                { body, serial } = (.ok (), d') →
              ∃ d unsubscribe prologue,
                (subscribing ctx called (ctx.property.anchors body.code).1 first field handler add).run.run
                    { body, serial } = (.ok (), d)
                  ∧ ctx.Subscribes field handler remove unsubscribe
                  ∧ d'.body.code
                    = prologue ++ (d.body.code.take position ++ unsubscribe ++ d.body.code.drop position) := by
  refine ⟨fun s name => ⟨s.pairwise_stores name,
    fun p hp => ⟨Stream.pos_of_mem_stores hp, Stream.le_length_of_mem_stores hp⟩,
    fun p => Stream.mem_stores_iff⟩, ?_⟩
  intro ctx called body serial field event handler add remove first position hbacking hfirst hadd hremove
    hposition
  have hmem : first ∈ body.code.stores field.name := List.mem_of_head? hfirst
  have hhead : (ctx.property.anchors body.code).1.head? = some first := by
    rw [PropertyPlan.fst_anchors_of_stores hbacking (List.ne_nil_of_mem hmem), hfirst]
  refine ⟨hposition ▸ Stream.beginsStore_storePosition hmem,
    fun d hrun => beginsStore_subscribing hbacking hfirst hposition hrun,
    fun d' hrun => edits_taken_back hhead hadd hremove (fun d hd => ?_) hrun⟩
  obtain ⟨hsame, hbegins, -⟩ := beginsStore_subscribing hbacking hfirst hposition hd
  exact ⟨hsame, Nat.le_of_lt hbegins.lt_length⟩

end Weaving

namespace Chain

def editing : BlockContext := ⟨{}, resolver, module, type, property⟩

/-- The setter of a node with its announcements and the handler given behind the first store. -/
def subscribed : Except Error Unit × Draft :=
  (Weaving.subscribing editing [] [5, 8] 5 next ⟨5⟩ ⟨2⟩).run.run { body := setNext, serial := 0 }

/-- The same with the handler taken back, and the values before the change read in front of everything. -/
def edited : Except Error Unit × Draft :=
  (Weaving.edits editing [] [5, 8] (some (next, changed, ⟨5⟩))).run.run { body := setNext, serial := 0 }

end Chain

namespace Weaving

/-- The setter of a node stores first at position 4, and the handler is taken back there. -/
theorem stores_located_chain :
    Chain.setNext.code.stores Chain.next.name = [5, 8]
      ∧ BlockContext.storePosition Chain.subscribed.2.body.code 5 = 4
      ∧ Chain.subscribed.2.body.code.BeginsStore Chain.next.name 5 4
      ∧ Chain.edited.1 = .ok ()
      ∧ Chain.edited.2.body.code = Chain.edited.2.body.code.take 3
        ++ (Chain.subscribed.2.body.code.take 4 ++ Chain.edited.2.body.code.extract 7 19
          ++ Chain.subscribed.2.body.code.drop 4) := by
  have hstores : Chain.setNext.code.stores Chain.next.name = [5, 8] := by decide +kernel
  have hanchors : (Chain.property.anchors Chain.setNext.code).1 = [5, 8] := by decide +kernel
  have hposition : BlockContext.storePosition Chain.setNext.code 5 = 4 := by decide +kernel
  have hedited : Chain.edited.1 = .ok () := by decide +kernel
  have hsubscribed : Chain.subscribed.1 = .ok () := by decide +kernel
  obtain ⟨-, hlocated, htaken⟩ := stores_located.2 Chain.editing [] Chain.setNext 0 Chain.next Chain.changed
    ⟨5⟩ ⟨2⟩ ⟨3⟩ 5 4 rfl (by rw [hstores]; rfl) rfl rfl hposition
  have hcontext : (Chain.editing.property.anchors Chain.setNext.code).1 = [5, 8] := hanchors
  rw [hcontext] at hlocated htaken
  have hfirst : Chain.subscribed = (.ok (), Chain.subscribed.2) := by rw [← hsubscribed]
  have hall : Chain.edited = (.ok (), Chain.edited.2) := by rw [← hedited]
  obtain ⟨hsame, hbegins, -⟩ := hlocated _ hfirst
  obtain ⟨d, unsubscribe, prologue, hd, hsubscribes, hcode⟩ := htaken _ hall
  obtain rfl : Chain.subscribed.2 = d := (Prod.mk.inj (hfirst.symm.trans hd)).2
  -- the lengths say which parts of the code these are
  have hunsubscribe : unsubscribe.length = 12 := hsubscribes.length_eq
  have hsubscribing : Chain.subscribed.2.body.code.length = 37 := by decide +kernel
  have hprologue : prologue.length = 3 := by
    have hlength : Chain.edited.2.body.code.length = 52 := by decide +kernel
    rw [hcode] at hlength
    simp only [List.length_append, List.length_take, List.length_drop, hsubscribing, hunsubscribe] at hlength
    omega
  have hfront : Chain.edited.2.body.code.take 3 = prologue := by
    rw [hcode, List.take_left' hprologue]
  have hblock : Chain.edited.2.body.code.extract 7 19 = unsubscribe := by
    have hbefore : (prologue ++ Chain.subscribed.2.body.code.take 4).length = 7 := by
      rw [List.length_append, List.length_take, hsubscribing, hprologue]
      rfl
    rw [hcode, ← List.append_assoc, ← List.append_assoc, List.append_assoc _ unsubscribe,
      List.extract_eq_take_drop, List.drop_left' hbefore]
    exact List.take_left' hunsubscribe
  refine ⟨hstores, hsame, hbegins, hedited, ?_⟩
  rw [hfront, hblock]
  exact hcode

end Weaving

end SetterLoom
