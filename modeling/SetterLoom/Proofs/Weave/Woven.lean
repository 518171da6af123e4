import Mathlib.Data.List.Pairwise
import SetterLoom.Proofs.Machine.Reaches
import SetterLoom.Proofs.Weave.Plain

/-!
# Where things stand in woven code

Woven code is the prologue, and then for each position of the unedited code its block and the instruction
that was there. All labels of injected instructions are new and differ from each other, and the only
branches among the injected instructions are those of the subscription to the `nop` behind them. So a
branch that is not straight on goes to an injected instruction only there.

* `weave_cases`: the parts of woven code.
* `untargeted`: injected code that no branch goes to.
* `branch_of_last`: the one branch to the end of a subscription block.
-/

namespace SetterLoom
set_option autoImplicit false

theorem Stream.Settled.mono {code : Stream} {serial serial' : Nat} (h : code.Settled serial)
    (hle : serial ≤ serial') : code.Settled serial' :=
  fun i hi l hl n hn => h i hi l hl n (Nat.le_trans hle hn)

/-! ## The parts of a subscription block -/

namespace BlockContext

/-- The test of whether the field is null. -/
def testOps (ctx : BlockContext) (field : Field) (equals : MethodId) : List Op :=
  let boxing := if (ctx.module.type? field.type).any (·.isValue) then [Op.box field.type] else []
  [.ldarg 0, .ldfld field] ++ boxing ++ [.ldnull, .call equals]

/-- The call of the accessor with a new handler. -/
def accessOps (field : Field) (handlerConstructor handler accessor : MethodId) : List Op :=
  [.ldarg 0, .ldfld field, .ldarg 0, .ldftn handler, .newobj handlerConstructor, .callvirt accessor]

theorem subscriptionOps_eq (ctx : BlockContext) (field : Field)
    (equals handlerConstructor handler accessor : MethodId) (last : Label) :
    ctx.subscriptionOps field equals handlerConstructor handler accessor last
      = ctx.testOps field equals ++ .branch .brtrue last
        :: accessOps field handlerConstructor handler accessor := by
  simp [subscriptionOps, testOps, accessOps]

theorem working_testOps (ctx : BlockContext) (field : Field) (equals : MethodId) :
    ∀ op ∈ ctx.testOps field equals, op.Working := by
  intro op hop
  simp only [testOps, List.mem_append, List.mem_cons, List.not_mem_nil, or_false] at hop
  rcases hop with (hop | hop) | hop
  · rcases hop with rfl | rfl <;> exact ⟨⟨nofun, nofun, nofun, nofun⟩, nofun⟩
  · split at hop
    · rw [List.mem_singleton.mp hop]
      exact ⟨⟨nofun, nofun, nofun, nofun⟩, nofun⟩
    · exact absurd hop List.not_mem_nil
  · rcases hop with rfl | rfl <;> exact ⟨⟨nofun, nofun, nofun, nofun⟩, nofun⟩

theorem working_accessOps (field : Field) (handlerConstructor handler accessor : MethodId) :
    ∀ op ∈ accessOps field handlerConstructor handler accessor, op.Working := by
  intro op hop
  simp only [accessOps, List.mem_cons, List.not_mem_nil, or_false] at hop
  rcases hop with rfl | rfl | rfl | rfl | rfl | rfl <;>
    exact ⟨⟨nofun, nofun, nofun, nofun⟩, nofun⟩

/-- A subscription block in its parts. -/
structure Parts (ctx : BlockContext) (field : Field) (handler accessor : MethodId)
    (block : List Instruction) where
  equals : MethodId
  handlerConstructor : MethodId
  last : Label
  test : List Instruction
  branch : Instruction
  inner : List Instruction
  equals_eq : ctx.resolver.objectEquals ctx.module = .ok equals
  constructor_eq : ctx.resolver.handlerConstructor ctx.module = .ok handlerConstructor
  block_eq : block = test ++ branch :: inner ++ [⟨last, .nop⟩]
  test_ops : test.map (·.op) = ctx.testOps field equals
  branch_op : branch.op = .branch .brtrue last
  inner_ops : inner.map (·.op) = accessOps field handlerConstructor handler accessor

theorem Subscribes.parts {ctx : BlockContext} {field : Field} {handler accessor : MethodId}
    {block : List Instruction} (h : ctx.Subscribes field handler accessor block) :
    Nonempty (ctx.Parts field handler accessor block) := by
  obtain ⟨equals, handlerConstructor, last, front, hequals, hconstructor, rfl, hops⟩ := h
  rw [subscriptionOps_eq, List.map_eq_append_iff] at hops
  obtain ⟨test, rest, rfl, htest, hrest⟩ := hops
  obtain ⟨branch, inner, rfl, hbranch, hinner⟩ := List.map_eq_cons_iff.mp hrest
  exact ⟨⟨equals, handlerConstructor, last, test, branch, inner, hequals, hconstructor, rfl, htest,
    hbranch, hinner⟩⟩

namespace Parts

variable {ctx : BlockContext} {field : Field} {handler accessor : MethodId}
  {block : List Instruction} (P : ctx.Parts field handler accessor block)
include P

theorem working_test {i : Instruction} (hi : i ∈ P.test) : i.op.Working := by
  have hop : i.op ∈ P.test.map (·.op) := List.mem_map_of_mem hi
  rw [P.test_ops] at hop
  exact ctx.working_testOps field P.equals _ hop

theorem working_inner {i : Instruction} (hi : i ∈ P.inner) : i.op.Working := by
  have hop : i.op ∈ P.inner.map (·.op) := List.mem_map_of_mem hi
  rw [P.inner_ops] at hop
  exact working_accessOps field P.handlerConstructor handler accessor _ hop

theorem last_mem : (⟨P.last, .nop⟩ : Instruction) ∈ block := by
  have hmem : (⟨P.last, .nop⟩ : Instruction) ∈ P.test ++ P.branch :: P.inner ++ [⟨P.last, .nop⟩] := by
    simp
  rwa [← P.block_eq] at hmem

/-- A run that returns from the start of a subscription passes through it one way or the other. -/
theorem skips_of_ends {c : Site} {call : Call} {code : Stream} {p : Nat} {rest : List Instruction} {f : Frame}
    {s t : Machine} {v : Value} (hholds : code.Holds p (block ++ rest))
    (hlast : code.lastPosition? P.last = some (p + (P.test ++ P.branch :: P.inner).length))
    (hends : c.Ends call code Site.idle p f s v t) :
    ∃ g u, c.Skips call (ctx.testOps field P.equals) P.last
        (accessOps field P.handlerConstructor handler accessor) f s g u
      ∧ c.Ends call code Site.idle (p + block.length) g u v t := by
  have hblock : code.Holds p (P.test ++ P.branch :: P.inner ++ [⟨P.last, .nop⟩]) := by
    have hleft := hholds.left
    rwa [P.block_eq] at hleft
  have hlength : block.length = (P.test ++ P.branch :: P.inner).length + 1 := by
    conv_lhs => rw [P.block_eq]
    rw [List.length_append, List.length_singleton]
  obtain ⟨g, u, hskips, hrest⟩ := hends.skips hblock P.branch_op hlast
    (fun i hi => (P.working_test hi).1) (fun i hi => (P.working_inner hi).1)
  rw [P.test_ops, P.inner_ops] at hskips
  rw [Nat.add_assoc, ← hlength] at hrest
  exact ⟨g, u, hskips, hrest⟩

theorem bent {k : Nat} {i : Instruction} (hi : block[k]? = some i) (hbent : ¬ i.op.Straight) :
    k = P.test.length ∧ i = P.branch := by
  rw [P.block_eq, List.append_assoc] at hi
  rcases Nat.lt_or_ge k P.test.length with hlt | hge
  · rw [List.getElem?_append_left hlt] at hi
    exact absurd (P.working_test (List.mem_of_getElem? hi)).1 hbent
  · rw [List.getElem?_append_right hge] at hi
    rcases Nat.eq_zero_or_pos (k - P.test.length) with hzero | hpos
    · rw [hzero] at hi
      simp at hi
      exact ⟨by omega, hi.symm⟩
    · obtain ⟨n, hn⟩ : ∃ n, k - P.test.length = n + 1 := ⟨k - P.test.length - 1, by omega⟩
      rw [hn, List.cons_append, List.getElem?_cons_succ] at hi
      rcases List.mem_append.mp (List.mem_of_getElem? hi) with hmem | hmem
      · exact absurd (P.working_inner hmem).1 hbent
      · rw [List.mem_singleton.mp hmem] at hbent
        exact absurd ⟨nofun, nofun, nofun, nofun⟩ hbent

end Parts

end BlockContext

/-! ## Positions -/

namespace Layout

variable {ctx : BlockContext} {subscription : Option (Field × Event × MethodId)}
  {called : List String} {anchors : List Nat} {before : String → Bool → UInt16}
  (l : Layout ctx subscription called anchors before) {code : Stream} {p x : Nat} {i : Instruction}

theorem length_prologue_le_start (code : Stream) (p : Nat) :
    l.prologue.length ≤ l.start code p := Nat.le_add_right _ _

theorem holds_block (hp : p ≤ code.length) :
    (l.weave code).Holds (l.start code p) (l.block code p) :=
  fun _ hk => l.getElem?_block hp hk

/-- An instruction of woven code is one of the prologue, of a block or of the unedited code. -/
theorem weave_cases (hi : (l.weave code)[x]? = some i) :
    (x < l.prologue.length ∧ l.prologue[x]? = some i)
      ∨ (∃ p k, p ≤ code.length ∧ x = l.start code p + k ∧ (l.block code p)[k]? = some i)
      ∨ ∃ p, p < code.length ∧ x = l.place code p ∧ code[p]? = some i := by
  rcases Nat.lt_or_ge x l.prologue.length with hlt | hge
  · rw [weave, List.getElem?_append_left hlt] at hi
    exact .inl ⟨hlt, hi⟩
  · have hrest := hi
    rw [weave, List.getElem?_append_right hge] at hrest
    have hlen := (List.getElem?_eq_some_iff.mp hrest).1
    obtain ⟨p, hp, ⟨k, hk, hx⟩ | ⟨hlt, hx⟩⟩ := Stream.position_cases (l.block code) code hlen
    · have hplace : x = l.start code p + k := by
        rw [start]
        omega
      refine .inr (.inl ⟨p, k, hp, hplace, ?_⟩)
      rw [← l.holds_block hp k hk, ← hplace, hi]
    · have hplace : x = l.place code p := by
        rw [place]
        omega
      refine .inr (.inr ⟨p, hlt, hplace, ?_⟩)
      rw [← l.getElem?_place hp, ← hplace, hi]

theorem mem_weave (hi : i ∈ l.weave code) : i ∈ code ∨ i ∈ l.injected code := by
  obtain ⟨x, hx⟩ := List.mem_iff_getElem?.mp hi
  rcases l.weave_cases hx with ⟨-, hmem⟩ | ⟨p, k, hp, -, hmem⟩ | ⟨p, -, -, hmem⟩
  · exact .inr (l.mem_injected (.inl (List.mem_of_getElem? hmem)))
  · exact .inr (l.mem_injected (.inr ⟨p, hp, List.mem_of_getElem? hmem⟩))
  · exact .inl (List.mem_of_getElem? hmem)

theorem weave_of_injected (hi : i ∈ l.injected code) : i ∈ l.weave code := by
  rcases List.mem_append.mp hi with hi | hi
  · exact List.mem_append_left _ hi
  · obtain ⟨p, hp, hmem⟩ := List.mem_flatMap.mp hi
    refine List.mem_append_right _ ?_
    rw [Stream.interleave_eq_flatMap]
    exact List.mem_flatMap.mpr ⟨p, hp, List.mem_append_left _ hmem⟩

theorem mem_block (hi : i ∈ l.block code p) :
    (anchors.head?.map (BlockContext.storePosition code) = some p ∧ i ∈ l.unsubscribe)
      ∨ (anchors.head? = some p ∧ i ∈ l.subscribe) ∨ p ∈ anchors ∧ i ∈ l.notification p := by
  simp only [block, List.mem_append] at hi
  rcases hi with (hi | hi) | hi
  · split at hi
    · exact .inl ⟨‹_›, hi⟩
    · exact absurd hi List.not_mem_nil
  · split at hi
    · exact .inr (.inl ⟨‹_›, hi⟩)
    · exact absurd hi List.not_mem_nil
  · split at hi
    · exact .inr (.inr ⟨‹_›, hi⟩)
    · exact absurd hi List.not_mem_nil

theorem mem_block_of_notification (hp : p ∈ anchors) (hi : i ∈ l.notification p) : i ∈ l.block code p := by
  unfold block
  rw [if_pos hp]
  exact List.mem_append_right _ hi

theorem working_prologue (hi : i ∈ l.prologue) : i.op.Working :=
  (l.unlabelled_prologue hi).1.working

theorem working_notification (hp : p ∈ anchors) (hi : i ∈ l.notification p) : i.op.Working :=
  (l.unlabelled_notification hp hi).1.working

/-- Injected code is that of a subscription, or reads values and announces changes. -/
theorem injected_cases (hi : i ∈ l.injected code) :
    i.op.Unlabelled ∨ i ∈ l.unsubscribe ∨ i ∈ l.subscribe := by
  rcases List.mem_append.mp hi with hi | hi
  · exact .inl (l.unlabelled_prologue hi)
  · obtain ⟨p, -, hi⟩ := List.mem_flatMap.mp hi
    rcases l.mem_block hi with ⟨-, hi⟩ | ⟨-, hi⟩ | ⟨hp, hi⟩
    · exact .inr (.inl hi)
    · exact .inr (.inr hi)
    · exact .inl (l.unlabelled_notification hp hi)

theorem exists_subscription (hi : i ∈ l.unsubscribe ∨ i ∈ l.subscribe) :
    ∃ field event handler, subscription = some (field, event, handler) := by
  cases subscription with
  | none =>
    have hsubscribe : l.subscribe = [] := l.subscribe_ops
    have hunsubscribe : l.unsubscribe = [] := l.unsubscribe_ops
    simp [hsubscribe, hunsubscribe] at hi
  | some followed => exact ⟨followed.1, followed.2.1, followed.2.2, rfl⟩

theorem subscription_parts {field : Field} {event : Event} {handler : MethodId}
    (l : Layout ctx (some (field, event, handler)) called anchors before) :
    ∃ add remove, event.add = some add ∧ event.remove = some remove
      ∧ Nonempty (ctx.Parts field handler add l.subscribe)
      ∧ Nonempty (ctx.Parts field handler remove l.unsubscribe) := by
  obtain ⟨add, hadd, hblock⟩ := l.subscribe_ops
  obtain ⟨remove, hremove, hblock'⟩ := l.unsubscribe_ops
  exact ⟨add, remove, hadd, hremove, hblock.parts, hblock'.parts⟩

theorem bent_injected (hi : i ∈ l.injected code) (hbent : ¬ i.op.Straight) :
    i ∈ l.unsubscribe ∨ i ∈ l.subscribe :=
  (l.injected_cases hi).resolve_left fun h => hbent h.1.working.1

theorem target_bent (hi : i ∈ l.unsubscribe ∨ i ∈ l.subscribe) (hbent : ¬ i.op.Straight)
    {label : Label} (htarget : i.op.target? = some label) :
    (⟨label, .nop⟩ : Instruction) ∈ l.unsubscribe ∨ (⟨label, .nop⟩ : Instruction) ∈ l.subscribe := by
  obtain ⟨field, event, handler, rfl⟩ := l.exists_subscription hi
  obtain ⟨add, remove, -, -, ⟨P⟩, ⟨R⟩⟩ := l.subscription_parts
  rcases hi with hi | hi
  · obtain ⟨k, hk⟩ := List.mem_iff_getElem?.mp hi
    obtain ⟨-, rfl⟩ := R.bent hk hbent
    rw [R.branch_op] at htarget
    obtain rfl : R.last = label := Option.some.inj htarget
    exact .inl R.last_mem
  · obtain ⟨k, hk⟩ := List.mem_iff_getElem?.mp hi
    obtain ⟨-, rfl⟩ := P.bent hk hbent
    rw [P.branch_op] at htarget
    obtain rfl : P.last = label := Option.some.inj htarget
    exact .inr P.last_mem

/-! ## The blocks of the subscription -/

/-- The anchors are positions of the code, in order, and there is code in front of them if there is a
subscription. -/
structure Anchored (subscription : Option (Field × Event × MethodId)) (anchors : List Nat)
    (code : Stream) : Prop where
  sorted : anchors.Pairwise (· < ·)
  inside : ∀ a ∈ anchors, a ≤ code.length
  nonempty : anchors ≠ []
  behind : subscription.isSome → ∀ a ∈ anchors, 0 < a

theorem storePosition_lt {a : Nat} (ha : 0 < a) : BlockContext.storePosition code a < a := by
  unfold BlockContext.storePosition
  split <;> omega

theorem Anchored.notMem_of_lt {a p : Nat} (h : Anchored subscription anchors code)
    (hhead : anchors.head? = some a) (hp : p < a) : p ∉ anchors := by
  intro hmem
  cases anchors with
  | nil => cases hhead
  | cons b rest =>
    obtain rfl : b = a := Option.some.inj hhead
    rcases List.mem_cons.mp hmem with heq | hrest
    · omega
    · have := (List.pairwise_cons.mp h.sorted).1 p hrest
      omega

/-- In front of the first anchor there is only the first half of the subscription. -/
theorem block_before {a : Nat} (hanchored : Anchored subscription anchors code) (hhead : anchors.head? = some a)
    (hp : p < a) (hstore : p ≠ BlockContext.storePosition code a) : l.block code p = [] := by
  have hne : ¬ some (BlockContext.storePosition code a) = some p := fun h =>
    hstore (Option.some.inj h).symm
  have hne' : ¬ some a = some p := fun h => by
    have := Option.some.inj h
    omega
  unfold block
  rw [hhead, Option.map_some, if_neg hne, if_neg hne', if_neg (hanchored.notMem_of_lt hhead hp)]
  rfl

section Blocks

variable (hanchored : Anchored subscription anchors code) {a : Nat} (hhead : anchors.head? = some a)
  (ha : 0 < a)
include hhead ha

theorem block_head : l.block code a = l.subscribe ++ l.notification a := by
  have hlt : BlockContext.storePosition code a < a := storePosition_lt ha
  have hne : ¬ some (BlockContext.storePosition code a) = some a := fun h => by
    have := Option.some.inj h
    omega
  unfold block
  rw [hhead, Option.map_some, if_neg hne, if_pos rfl, if_pos (List.mem_of_head? hhead)]
  rfl

include hanchored

theorem block_store : l.block code (BlockContext.storePosition code a) = l.unsubscribe := by
  have hlt : BlockContext.storePosition code a < a := storePosition_lt ha
  have hout := hanchored.notMem_of_lt hhead hlt
  have hne : ¬ some a = some (BlockContext.storePosition code a) := fun h => by
    have := Option.some.inj h
    omega
  unfold block
  rw [hhead, if_neg hout, if_neg hne]
  simp

end Blocks

theorem mem_subscription (hanchored : Anchored subscription anchors code)
    (hi : i ∈ l.unsubscribe ∨ i ∈ l.subscribe) : i ∈ l.injected code := by
  obtain ⟨field, event, handler, rfl⟩ := l.exists_subscription hi
  obtain ⟨a, hhead⟩ : ∃ a, anchors.head? = some a := by
    cases anchors with
    | nil => exact absurd rfl hanchored.nonempty
    | cons a rest => exact ⟨a, rfl⟩
  have hmem : a ∈ anchors := List.mem_of_head? hhead
  have ha : 0 < a := hanchored.behind rfl a hmem
  have hle := hanchored.inside a hmem
  have hlt : BlockContext.storePosition code a < a := storePosition_lt ha
  rcases hi with hi | hi
  · refine l.mem_injected (.inr ⟨BlockContext.storePosition code a, by omega, ?_⟩)
    rwa [l.block_store hanchored hhead ha]
  · refine l.mem_injected (.inr ⟨a, hle, ?_⟩)
    rw [l.block_head hhead ha]
    exact List.mem_append_left _ hi

/-! ## Labels -/

section Labels

variable {serial count : Nat} (hsettled : code.Settled serial)
  (hlabels : ((l.injected code).map (·.label)).Perm ((List.range' serial count).map .drawn))
include hlabels

theorem label_drawn (hi : i ∈ l.injected code) : ∃ n, serial ≤ n ∧ i.label = .drawn n := by
  obtain ⟨n, hn, hlabel⟩ := List.mem_map.mp (hlabels.mem_iff.mp (List.mem_map_of_mem hi))
  exact ⟨n, (List.mem_range'_1.mp hn).1, hlabel.symm⟩

theorem nodup_labels : ((l.injected code).map (·.label)).Nodup :=
  hlabels.nodup_iff.mpr (List.Nodup.map (fun _ _ h => Label.drawn.inj h) List.nodup_range')

theorem eq_of_label {j : Instruction} (hi : i ∈ l.injected code) (hj : j ∈ l.injected code)
    (h : i.label = j.label) : i = j :=
  List.inj_on_of_nodup_map (l.nodup_labels hlabels) hi hj h

theorem place_of_label {q k n : Nat} {j : Instruction} (hp : p ≤ code.length) (hq : q ≤ code.length)
    (hi : (l.block code p)[k]? = some i) (hj : (l.block code q)[n]? = some j)
    (h : i.label = j.label) : p = q ∧ k = n := by
  have hblocks := l.nodup_labels hlabels
  rw [injected, Stream.injected, List.map_append, List.map_flatMap] at hblocks
  have hnodup := List.nodup_flatMap.mp (List.nodup_append.mp hblocks).2.1
  have hmem : ∀ {p k : Nat} {i : Instruction}, (l.block code p)[k]? = some i →
      i.label ∈ (l.block code p).map (·.label) := fun hi =>
    List.mem_map_of_mem (List.mem_of_getElem? hi)
  have hsame : p = q := by
    by_contra hne
    have : Std.Symm (Function.onFun List.Disjoint fun p => (l.block code p).map (·.label)) :=
      ⟨fun _ _ hd _ h h' => hd h' h⟩
    have hdisjoint : List.Disjoint ((l.block code p).map (·.label))
        ((l.block code q).map (·.label)) :=
      hnodup.2.forall (List.mem_range.mpr (by omega)) (List.mem_range.mpr (by omega)) hne
    exact hdisjoint (hmem hi) (h ▸ hmem hj)
  subst hsame
  have hone := hnodup.1 p (List.mem_range.mpr (by omega))
  have hlt : k < ((l.block code p).map (·.label)).length := by
    rw [List.length_map]
    exact (List.getElem?_eq_some_iff.mp hi).1
  refine ⟨rfl, (List.getElem?_inj hlt hone).mp ?_⟩
  rw [List.getElem?_map, List.getElem?_map, hi, hj, Option.map_some, Option.map_some, h]

include hsettled

/-- No branch goes to an injected instruction other than a `nop`. -/
theorem untargeted (hanchored : Anchored subscription anchors code)
    (hi : i ∈ l.injected code) (hop : i.op ≠ .nop) : (l.weave code).Untargeted i.label := by
  intro j hj htarget
  by_contra hbent
  rcases l.mem_weave hj with hj | hj
  · obtain ⟨n, hn, hlabel⟩ := l.label_drawn hlabels hi
    exact hsettled j hj _ htarget n hn hlabel
  · have hnop := l.target_bent (l.bent_injected hj hbent) hbent htarget
    have hsame := l.eq_of_label hlabels (i := ⟨i.label, .nop⟩) (l.mem_subscription hanchored hnop) hi rfl
    exact hop (by rw [← hsame])

end Labels

theorem getElem?_nop {field : Field} {handler accessor : MethodId} {block : List Instruction}
    (P : ctx.Parts field handler accessor block) :
    block[(P.test ++ P.branch :: P.inner).length]? = some ⟨P.last, .nop⟩ := by
  have hnop : (P.test ++ P.branch :: P.inner ++ [(⟨P.last, .nop⟩ : Instruction)])[
      (P.test ++ P.branch :: P.inner).length]? = some ⟨P.last, .nop⟩ := by
    rw [List.getElem?_append_right (Nat.le_refl _), Nat.sub_self]
    rfl
  rwa [← P.block_eq] at hnop

section Subscribed

variable {serial count : Nat} (hsettled : code.Settled serial) {field : Field} {event : Event} {handler add remove : MethodId} {a : Nat}
  {l : Layout ctx (some (field, event, handler)) called anchors before}
  (hanchored : Anchored (some (field, event, handler)) anchors code)
  (hlabels : ((l.injected code).map (·.label)).Perm ((List.range' serial count).map .drawn))
  (P : ctx.Parts field handler add l.subscribe) (R : ctx.Parts field handler remove l.unsubscribe)
  (hhead : anchors.head? = some a)
include hanchored hlabels hhead

omit hlabels in
theorem head_pos : 0 < a ∧ a ≤ code.length :=
  ⟨hanchored.behind rfl a (List.mem_of_head? hhead), hanchored.inside a (List.mem_of_head? hhead)⟩

include P hsettled in
/-- Only its own branch goes to the end of the block in front of the store. -/
theorem branch_of_last {i : Instruction} {x : Nat} (hi : (l.weave code)[x]? = some i)
    (htarget : i.op.target? = some R.last) (hbent : ¬ i.op.Straight) :
    x = l.start code (BlockContext.storePosition code a) + R.test.length := by
  obtain ⟨ha, hle⟩ := head_pos hanchored hhead
  have hlt : BlockContext.storePosition code a < a := storePosition_lt ha
  have hstore := l.block_store hanchored hhead ha
  have hnop : (l.block code (BlockContext.storePosition code a))[
      (R.test ++ R.branch :: R.inner).length]? = some ⟨R.last, .nop⟩ := by
    rw [hstore]
    exact getElem?_nop R
  -- in the prologue, in a block, or in the unedited code, none of whose labels were drawn
  rcases l.weave_cases hi with ⟨-, hmem⟩ | ⟨p, k, hp, hx, hmem⟩ | ⟨p, -, -, hmem⟩
  · exact absurd (l.working_prologue (List.mem_of_getElem? hmem)).1 hbent
  · rcases l.mem_block (List.mem_of_getElem? hmem) with ⟨hplace, -⟩ | ⟨hplace, -⟩ | ⟨hplace, hin⟩
    · rw [hhead] at hplace
      obtain rfl := Option.some.inj hplace
      rw [hstore] at hmem
      rw [hx, (R.bent hmem hbent).1]
    · -- the branch in the other block goes to the end of that one
      rw [hhead] at hplace
      obtain rfl := Option.some.inj hplace
      rw [l.block_head hhead ha] at hmem
      have hsub : i ∈ l.subscribe := by
        rcases List.mem_append.mp (List.mem_of_getElem? hmem) with hsub | hin
        · exact hsub
        · exact absurd (l.working_notification (List.mem_of_head? hhead) hin).1 hbent
      obtain ⟨n, hn⟩ := List.mem_iff_getElem?.mp hsub
      obtain ⟨-, rfl⟩ := P.bent hn hbent
      rw [P.branch_op] at htarget
      have hlast : P.last = R.last := Option.some.inj htarget
      have hnop' : (l.block code a)[(P.test ++ P.branch :: P.inner).length]?
          = some ⟨P.last, .nop⟩ := by
        rw [l.block_head hhead ha, List.getElem?_append_left
          (List.getElem?_eq_some_iff.mp (getElem?_nop P)).1]
        exact getElem?_nop P
      have := (l.place_of_label hlabels hp (by omega) hnop' hnop hlast).1
      omega
    · exact absurd (l.working_notification hplace hin).1 hbent
  · obtain ⟨n, hn, hlabel⟩ := l.label_drawn hlabels
      (l.mem_subscription hanchored (.inl R.last_mem))
    exact absurd hlabel (hsettled i (List.mem_of_getElem? hmem) _ htarget n hn)

/-- The end of the block behind the store is the last instruction with its label, if no instruction of
the unedited code has a label still to be drawn. -/
theorem lastPosition?_last (hfresh : ∀ i ∈ code, ∀ n, serial ≤ n → i.label ≠ .drawn n) :
    (l.weave code).lastPosition? P.last
      = some (l.start code a + (P.test ++ P.branch :: P.inner).length) := by
  obtain ⟨ha, hle⟩ := head_pos hanchored hhead
  have hnop : (l.block code a)[(P.test ++ P.branch :: P.inner).length]? = some ⟨P.last, .nop⟩ := by
    rw [l.block_head hhead ha, List.getElem?_append_left
      (List.getElem?_eq_some_iff.mp (getElem?_nop P)).1]
    exact getElem?_nop P
  have hlen := (List.getElem?_eq_some_iff.mp hnop).1
  refine Stream.lastPosition?_eq_some.mpr ⟨⟨⟨P.last, .nop⟩, ?_, rfl⟩, fun q i hlt hi hlabel => ?_⟩
  · rw [l.holds_block hle _ hlen, hnop]
  · rcases l.weave_cases hi with ⟨hq, -⟩ | ⟨p, k, hp, hx, hmem⟩ | ⟨p, -, -, hmem⟩
    · have := l.length_prologue_le_start code a
      omega
    · obtain ⟨rfl, rfl⟩ := l.place_of_label hlabels hp hle hmem hnop hlabel
      omega
    · obtain ⟨n, hn, hdrawn⟩ := l.label_drawn hlabels
        (l.mem_subscription hanchored (.inr P.last_mem))
      exact hfresh i (List.mem_of_getElem? hmem) n hn (hlabel.trans hdrawn)

end Subscribed

end Layout

end SetterLoom
