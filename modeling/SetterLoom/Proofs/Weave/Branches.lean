import Mathlib.Order.Monotone.Basic
import SetterLoom.Proofs.Weave.Followed

/-!
# Branches in woven code

The woven code has every instruction of the unedited code at a place of its own, in the same order. A
branch of the unedited code names a label that was not drawn for the injected code, so it goes to the
instruction it went to before. A branch of the injected code goes to the end of its own block.

* `position?_weave`: where a label that was not drawn is found.
* `danglingBranch?_weave`: the check for branches to nowhere finds the same branch.
* `branches_kept`: both for a woven setter, and what the check of the woven setter comes to.
-/

namespace SetterLoom
set_option autoImplicit false

/-! ## Where labels are found -/

namespace Stream

variable {s : Stream} {l : Label} {p : Nat}

/-- The instruction branches to a label that no instruction of the code carries. -/
def Dangles (s : Stream) (i : Instruction) (l : Label) : Prop :=
  i.op.target? = some l ∧ s.position? l = none

private theorem any_label : s.any (·.label == l) = (s.position? l).isSome := by
  cases h : s.position? l with
  | none =>
    rw [Option.isSome_none, List.any_eq_false]
    exact fun i hi => by simpa using position?_eq_none.mp h i hi
  | some p =>
    obtain ⟨⟨i, hi, hl⟩, -⟩ := position?_eq_some.mp h
    exact List.any_eq_true.mpr ⟨i, List.mem_of_getElem? hi, by simp [hl]⟩

private theorem dangling_step (s : Stream) (i : Instruction) (p : Nat) (found : Nat × Label) :
    (match i.op.target? with
      | some l => if s.any (·.label == l) then none else some (p, l)
      | none => none) = some found ↔ found.1 = p ∧ s.Dangles i found.2 := by
  obtain ⟨q, l⟩ := found
  unfold Dangles
  cases i.op.target? with
  | none => simp
  | some l' =>
    dsimp only
    rw [any_label]
    cases hposition : s.position? l' with
    | none =>
      simp only [Option.isSome_none, Bool.false_eq_true, if_false, Option.some.injEq, Prod.mk.injEq]
      constructor
      · rintro ⟨rfl, rfl⟩
        exact ⟨rfl, rfl, hposition⟩
      · rintro ⟨rfl, rfl, -⟩
        exact ⟨rfl, rfl⟩
    | some x =>
      simp only [Option.isSome_some, if_true, reduceCtorEq, Option.some.injEq, false_iff]
      rintro ⟨-, rfl, hnone⟩
      rw [hposition] at hnone
      cases hnone

theorem danglingBranch?_eq_some :
    s.danglingBranch? = some (p, l)
      ↔ (∃ i, s[p]? = some i ∧ s.Dangles i l)
        ∧ ∀ q i, q < p → s[q]? = some i → ∀ l', ¬ s.Dangles i l' := by
  unfold danglingBranch?
  rw [List.findSome?_eq_some_iff]
  constructor
  · rintro ⟨front, ⟨i, q⟩, behind, hsplit, hfound, hnone⟩
    obtain ⟨front', rest, rfl, rfl, hrest⟩ := List.zipIdx_eq_append_iff.mp hsplit
    obtain ⟨hq, hdangles⟩ := (dangling_step _ i q (p, l)).mp hfound
    obtain ⟨behind', rfl⟩ : ∃ behind', rest = i :: behind' := by
      cases rest with
      | nil => simp at hrest
      | cons j behind' =>
        rw [List.zipIdx_cons, List.cons.injEq, Prod.mk.injEq] at hrest
        exact ⟨behind', by rw [hrest.1.1]⟩
    have hlength : q = front'.length := by
      rw [List.zipIdx_cons, List.cons.injEq, Prod.mk.injEq] at hrest
      simpa using hrest.1.2
    obtain rfl : p = front'.length := hq.trans hlength
    refine ⟨⟨i, by simp, hdangles⟩, fun n j hn hj l' hdangles' => ?_⟩
    rw [List.getElem?_append_left hn] at hj
    have hmem : (j, n) ∈ front'.zipIdx := List.mk_mem_zipIdx_iff_getElem?.mpr hj
    have hstep := hnone (j, n) hmem
    have hfound' := (dangling_step _ j n (n, l')).mpr ⟨rfl, hdangles'⟩
    exact Option.some_ne_none _ (hfound'.symm.trans hstep)
  · rintro ⟨⟨i, hi, hdangles⟩, hfirst⟩
    obtain ⟨hp, hget⟩ := List.getElem?_eq_some_iff.mp hi
    have hsplit : s = s.take p ++ i :: s.drop (p + 1) := by
      rw [← hget, List.getElem_cons_drop, List.take_append_drop]
    refine ⟨(s.take p).zipIdx, (i, p), (s.drop (p + 1)).zipIdx (p + 1), ?_,
      (dangling_step s i p (p, l)).mpr ⟨rfl, hdangles⟩, ?_⟩
    · conv_lhs => rw [hsplit]
      rw [List.zipIdx_append, List.zipIdx_cons, List.length_take, Nat.min_eq_left (by omega),
        Nat.zero_add]
    · rintro ⟨j, n⟩ hmem
      have hj := List.mk_mem_zipIdx_iff_getElem?.mp hmem
      have hn : n < p := by
        have := (List.getElem?_eq_some_iff.mp hj).1
        rw [List.length_take] at this
        omega
      rw [List.getElem?_take_of_lt hn] at hj
      by_contra hstep
      obtain ⟨found, hfound⟩ := Option.ne_none_iff_exists'.mp hstep
      exact hfirst n j hn hj _ ((dangling_step s j n found).mp hfound).2

theorem danglingBranch?_eq_none :
    s.danglingBranch? = none ↔ ∀ i ∈ s, ∀ l, ¬ s.Dangles i l := by
  unfold danglingBranch?
  rw [List.findSome?_eq_none_iff]
  constructor
  · intro hnone i hi l hdangles
    obtain ⟨p, hp⟩ := List.mem_iff_getElem?.mp hi
    have hstep := hnone (i, p) (List.mk_mem_zipIdx_iff_getElem?.mpr hp)
    have hfound := (dangling_step s i p (p, l)).mpr ⟨rfl, hdangles⟩
    exact Option.some_ne_none _ (hfound.symm.trans hstep)
  · rintro hnone ⟨i, p⟩ hmem
    by_contra hstep
    obtain ⟨found, hfound⟩ := Option.ne_none_iff_exists'.mp hstep
    exact hnone i (List.mem_of_getElem? (List.mk_mem_zipIdx_iff_getElem?.mp hmem)) _
      ((dangling_step s i p found).mp hfound).2

end Stream

/-! ## Code that names no label -/

namespace BlockContext

variable {ctx : BlockContext}

private theorem target?_of_all {ops : List Op} (h : ops.all (·.target?.isNone) = true) :
    ∀ op ∈ ops, op.target? = none :=
  fun op hop => Option.isNone_iff_eq_none.mp (List.all_eq_true.mp h op hop)

theorem target?_testOps (field : Field) (equals : MethodId) :
    ∀ op ∈ ctx.testOps field equals, op.target? = none := by
  unfold testOps
  split
  · exact target?_of_all rfl
  · exact target?_of_all rfl

theorem Parts.target_eq_last {field : Field} {handler accessor : MethodId}
    {block : List Instruction} (P : ctx.Parts field handler accessor block) {i : Instruction}
    (hi : i ∈ block) {label : Label} (htarget : i.op.target? = some label) : label = P.last := by
  rw [P.block_eq] at hi
  have hplain {code : List Instruction} {ops : List Op} (hops : code.map (·.op) = ops)
      (hall : ∀ op ∈ ops, op.target? = none) (hmem : i ∈ code) : False := by
    have hop : i.op ∈ code.map (·.op) := List.mem_map_of_mem hmem
    rw [hops] at hop
    rw [hall _ hop] at htarget
    cases htarget
  simp only [List.mem_append, List.mem_cons, List.not_mem_nil, or_false] at hi
  rcases hi with (hi | rfl | hi) | rfl
  · exact (hplain P.test_ops (target?_testOps field P.equals) hi).elim
  · rw [P.branch_op] at htarget
    exact (Option.some.inj htarget).symm
  · exact (hplain P.inner_ops (target?_of_all rfl) hi).elim
  · cases htarget

end BlockContext

/-! ## Woven code -/

namespace Layout

variable {ctx : BlockContext} {subscription : Option (Field × Event × MethodId)}
  {called : List String} {anchors : List Nat} {before : String → Bool → UInt16}
  (l : Layout ctx subscription called anchors before) {code : Stream} {label : Label}

theorem strictMono_place (code : Stream) : StrictMono (l.place code) := by
  intro p q hpq
  have := Stream.placeOf_lt_blockStart (l.block code) hpq
  have := Stream.blockStart_le_placeOf (l.block code) q
  unfold place
  omega

/-- A label that no injected instruction carries goes to the instruction it went to before. -/
theorem position?_weave (hlabel : ∀ i ∈ l.injected code, i.label ≠ label) :
    (l.weave code).position? label = (code.position? label).map (l.place code) := by
  -- an instruction of the woven code that carries the label is one of the unedited code
  have hback {x : Nat} {i : Instruction} (hx : (l.weave code)[x]? = some i)
      (hi : i.label = label) : ∃ p, x = l.place code p ∧ code[p]? = some i := by
    rcases l.weave_cases hx with ⟨-, hmem⟩ | ⟨p, k, hp, -, hmem⟩ | ⟨p, -, hplace, hmem⟩
    · exact absurd hi (hlabel i (l.mem_injected (.inl (List.mem_of_getElem? hmem))))
    · exact absurd hi (hlabel i (l.mem_injected (.inr ⟨p, hp, List.mem_of_getElem? hmem⟩)))
    · exact ⟨p, hplace, hmem⟩
  cases h : code.position? label with
  | none =>
    rw [Option.map_none, Stream.position?_eq_none]
    intro i hi hcarries
    obtain ⟨x, hx⟩ := List.mem_iff_getElem?.mp hi
    obtain ⟨p, -, hp⟩ := hback hx hcarries
    exact Stream.position?_eq_none.mp h i (List.mem_of_getElem? hp) hcarries
  | some p =>
    obtain ⟨⟨i, hi, hcarries⟩, hfirst⟩ := Stream.position?_eq_some.mp h
    rw [Option.map_some, Stream.position?_eq_some]
    refine ⟨⟨i, ?_, hcarries⟩, fun x j hx hj hcarries' => ?_⟩
    · rw [l.getElem?_place (Nat.le_of_lt (List.getElem?_eq_some_iff.mp hi).1), hi]
    · obtain ⟨q, rfl, hq⟩ := hback hj hcarries'
      exact hfirst q j ((l.strictMono_place code).lt_iff_lt.mp hx) hq hcarries'

theorem subscription_block (hanchored : Anchored subscription anchors code) {i : Instruction}
    (hi : i ∈ l.unsubscribe ∨ i ∈ l.subscribe) :
    ∃ field accessor handler block p, ctx.Subscribes field handler accessor block
      ∧ i ∈ block ∧ p ≤ code.length ∧ block <+: l.block code p := by
  obtain ⟨field, event, handler, rfl⟩ := l.exists_subscription hi
  obtain ⟨add, -, hadd⟩ := l.subscribe_ops
  obtain ⟨remove, -, hremove⟩ := l.unsubscribe_ops
  obtain ⟨a, hhead⟩ : ∃ a, anchors.head? = some a := by
    cases hlist : anchors with
    | nil => exact absurd hlist hanchored.nonempty
    | cons a rest => exact ⟨a, rfl⟩
  obtain ⟨ha, hle⟩ := head_pos hanchored hhead
  have hlt : BlockContext.storePosition code a < a := storePosition_lt ha
  rcases hi with hi | hi
  · refine ⟨field, remove, handler, _, BlockContext.storePosition code a, hremove, hi, by omega, ?_⟩
    exact l.block_store hanchored hhead ha ▸ List.prefix_refl _
  · refine ⟨field, add, handler, _, _, hadd, hi, hle, ?_⟩
    rw [l.block_head hhead ha]
    exact List.prefix_append _ _

theorem mem_subscription_of_target {i : Instruction} (hi : i ∈ l.injected code)
    (htarget : i.op.target? = some label) : i ∈ l.unsubscribe ∨ i ∈ l.subscribe :=
  (l.injected_cases hi).resolve_left fun h => Option.some_ne_none _ (htarget.symm.trans h.2)

section Labels

variable {l} {serial count : Nat} (hsettled : code.Settled serial)
  (hfresh : ∀ i ∈ code, ∀ n, serial ≤ n → i.label ≠ .drawn n)
  (hlabels : ((l.injected code).map (·.label)).Perm ((List.range' serial count).map .drawn))
include hlabels

include hsettled in
/-- A branch of the unedited code goes to the instruction it went to before. -/
theorem position?_target {i : Instruction} (hi : i ∈ code) (htarget : i.op.target? = some label) :
    (l.weave code).position? label = (code.position? label).map (l.place code) := by
  refine l.position?_weave fun j hj hlabel => ?_
  obtain ⟨n, hn, hdrawn⟩ := l.label_drawn hlabels hj
  exact hsettled i hi label htarget n hn (hlabel.symm.trans hdrawn)

include hfresh in
theorem eq_of_block {p k x : Nat} {i j : Instruction} (hp : p ≤ code.length)
    (hi : (l.block code p)[k]? = some i) (hj : (l.weave code)[x]? = some j)
    (hlabel : j.label = i.label) : x = l.start code p + k := by
  have hinjected : i ∈ code.injected (l.block code) :=
    List.mem_flatMap.mpr ⟨p, List.mem_range.mpr (by omega), List.mem_of_getElem? hi⟩
  rcases l.weave_cases hj with ⟨-, hmem⟩ | ⟨q, n, hq, rfl, hmem⟩ | ⟨q, -, -, hmem⟩
  · -- the code in front has labels of its own
    have hnodup := l.nodup_labels hlabels
    rw [injected, List.map_append] at hnodup
    exact absurd hlabel ((List.nodup_append.mp hnodup).2.2 _
      (List.mem_map_of_mem (List.mem_of_getElem? hmem)) _ (List.mem_map_of_mem hinjected))
  · obtain ⟨rfl, rfl⟩ := l.place_of_label hlabels hq hp hmem hi hlabel
    rfl
  · obtain ⟨n, hn, hdrawn⟩ := l.label_drawn hlabels (List.mem_append_right _ hinjected)
    exact absurd (hlabel.trans hdrawn) (hfresh j (List.mem_of_getElem? hmem) n hn)

include hfresh in
theorem position?_block {p k : Nat} {i : Instruction} (hp : p ≤ code.length)
    (hi : (l.block code p)[k]? = some i) :
    (l.weave code).position? i.label = some (l.start code p + k) := by
  have hk := (List.getElem?_eq_some_iff.mp hi).1
  refine Stream.position?_eq_some.mpr ⟨⟨i, (l.holds_block hp k hk).trans hi, rfl⟩, ?_⟩
  intro x j hx hj hlabel
  exact Nat.ne_of_lt hx (eq_of_block hfresh hlabels hp hi hj hlabel)

include hfresh in
theorem lastPosition?_block {p k : Nat} {i : Instruction} (hp : p ≤ code.length)
    (hi : (l.block code p)[k]? = some i) :
    (l.weave code).lastPosition? i.label = some (l.start code p + k) := by
  have hk := (List.getElem?_eq_some_iff.mp hi).1
  refine Stream.lastPosition?_eq_some.mpr ⟨⟨i, (l.holds_block hp k hk).trans hi, rfl⟩, ?_⟩
  intro x j hx hj hlabel
  exact Nat.ne_of_gt hx (eq_of_block hfresh hlabels hp hi hj hlabel)

include hfresh in
/-- A branch of the injected code goes to the end of its own block. -/
theorem inside_block (hanchored : Anchored subscription anchors code) {x : Nat} {i : Instruction}
    (hi : (l.weave code)[x]? = some i) (hinjected : i ∈ l.injected code)
    (htarget : i.op.target? = some label) :
    ∃ field accessor handler block start last, ctx.Subscribes field handler accessor block
      ∧ (l.weave code).Holds start block
      ∧ (∀ p, p < code.length → l.place code p < start ∨ start + block.length ≤ l.place code p)
      ∧ start ≤ x ∧ x < start + block.length ∧ (l.weave code).position? label = some last
      ∧ start ≤ last ∧ last < start + block.length := by
  obtain ⟨field, accessor, handler, block, p, hsubscribes, hmem, hp, rest, hblock⟩ :=
    l.subscription_block hanchored (l.mem_subscription_of_target hinjected htarget)
  obtain ⟨P⟩ := hsubscribes.parts
  obtain rfl := P.target_eq_last hmem htarget
  have hholds : (l.weave code).Holds (l.start code p) (block ++ rest) := hblock ▸ l.holds_block hp
  have hin {k : Nat} {j : Instruction} (hj : block[k]? = some j) : (l.block code p)[k]? = some j := by
    rw [← hblock, List.getElem?_append_left (List.getElem?_eq_some_iff.mp hj).1, hj]
  obtain ⟨k, hk⟩ := List.mem_iff_getElem?.mp hmem
  obtain ⟨n, hn⟩ := List.mem_iff_getElem?.mp P.last_mem
  have hklt := (List.getElem?_eq_some_iff.mp hk).1
  have hnlt := (List.getElem?_eq_some_iff.mp hn).1
  have hwhere : x = l.start code p + k := by
    rcases l.weave_cases hi with ⟨-, hfront⟩ | ⟨q, m, hq, rfl, hother⟩ | ⟨q, -, -, hold⟩
    · have hnodup := l.nodup_labels hlabels
      rw [injected, List.map_append] at hnodup
      exact absurd rfl ((List.nodup_append.mp hnodup).2.2 _
        (List.mem_map_of_mem (List.mem_of_getElem? hfront)) _ (List.mem_map_of_mem
          (List.mem_flatMap.mpr ⟨p, List.mem_range.mpr (by omega), List.mem_of_getElem? (hin hk)⟩)))
    · obtain ⟨rfl, rfl⟩ := l.place_of_label hlabels hq hp hother (hin hk) rfl
      rfl
    -- labels of the unedited code were not drawn
    · obtain ⟨m, hm, hdrawn⟩ := l.label_drawn hlabels hinjected
      exact absurd hdrawn (hfresh i (List.mem_of_getElem? hold) m hm)
  refine ⟨field, accessor, handler, block, l.start code p, l.start code p + n, hsubscribes,
    hholds.left, fun q hq => ?_, by omega, by omega,
    position?_block hfresh hlabels hp (hin hn), by omega, by omega⟩
  rcases Nat.lt_or_ge q p with hlt | hge
  · have := Stream.placeOf_lt_blockStart (l.block code) hlt
    exact .inl (by unfold place start; omega)
  · have hlength : block.length ≤ (l.block code p).length := by
      rw [← hblock, List.length_append]
      exact Nat.le_add_right _ _
    have := (l.strictMono_place code).monotone hge
    have := l.place_eq code p
    exact .inr (by omega)

include hfresh hsettled in
/-- The check for branches to nowhere finds the branch that it finds in the unedited code. -/
theorem danglingBranch?_weave (hanchored : Anchored subscription anchors code) :
    (l.weave code).danglingBranch?
      = code.danglingBranch?.map fun found => (l.place code found.1, found.2) := by
  -- what dangles in the unedited code still does, and injected code never dangles
  have hold {i : Instruction} (hi : i ∈ code) (label : Label) :
      (l.weave code).Dangles i label ↔ code.Dangles i label := by
    refine and_congr_right fun htarget => ?_
    rw [position?_target hsettled hlabels hi htarget, Option.map_eq_none_iff]
  have hnew {x : Nat} {i : Instruction} (hi : (l.weave code)[x]? = some i)
      (hinjected : i ∈ l.injected code) (label : Label) : ¬ (l.weave code).Dangles i label := by
    rintro ⟨htarget, hnone⟩
    obtain ⟨_, _, _, _, _, _, -, -, -, -, -, hsome, -⟩ :=
      inside_block hfresh hlabels hanchored hi hinjected htarget
    rw [hsome] at hnone
    cases hnone
  cases h : code.danglingBranch? with
  | none =>
    rw [Option.map_none, Stream.danglingBranch?_eq_none]
    intro i hi label hdangles
    rcases l.mem_weave hi with hmem | hmem
    · exact Stream.danglingBranch?_eq_none.mp h i hmem label ((hold hmem label).mp hdangles)
    · obtain ⟨x, hx⟩ := List.mem_iff_getElem?.mp hi
      exact hnew hx hmem label hdangles
  | some found =>
    obtain ⟨p, label⟩ := found
    obtain ⟨⟨i, hi, hdangles⟩, hfirst⟩ := Stream.danglingBranch?_eq_some.mp h
    rw [Option.map_some, Stream.danglingBranch?_eq_some]
    refine ⟨⟨i, ?_, (hold (List.mem_of_getElem? hi) label).mpr hdangles⟩, ?_⟩
    · rw [l.getElem?_place (Nat.le_of_lt (List.getElem?_eq_some_iff.mp hi).1), hi]
    · intro x j hx hj label' hdangles'
      rcases l.weave_cases hj with ⟨-, hmem⟩ | ⟨q, k, hq, -, hmem⟩ | ⟨q, -, rfl, hmem⟩
      · exact hnew hj (l.mem_injected (.inl (List.mem_of_getElem? hmem))) label' hdangles'
      · exact hnew hj (l.mem_injected (.inr ⟨q, hq, List.mem_of_getElem? hmem⟩)) label' hdangles'
      · exact hfirst q j ((l.strictMono_place code).lt_iff_lt.mp hx) hmem label'
          ((hold (List.mem_of_getElem? hmem) label').mp hdangles')

end Labels

end Layout

/-- The woven code has the instructions of the unedited code at their places, in order. Branches of the
unedited code go to the place of the instruction they went to before, so never to injected code; injected
branches stay inside a block of their own, which no instruction of the unedited code is in. The check for
branches to nowhere finds the branch that it finds in the unedited code. -/
structure Stream.KeepsBranches (code woven : Stream) (place : Nat → Nat)
    (Own : List Instruction → Prop) : Prop where
  ordered : StrictMono place
  kept : ∀ p, p < code.length → woven[place p]? = code[p]?
  resolved : ∀ i ∈ code, ∀ label, i.op.target? = some label →
    woven.position? label = (code.position? label).map place
  inside : ∀ x i label, woven[x]? = some i → (∀ p, p < code.length → x ≠ place p) →
    i.op.target? = some label → ∃ block start last, Own block ∧ woven.Holds start block
      ∧ (∀ p, p < code.length → place p < start ∨ start + block.length ≤ place p)
      ∧ start ≤ x ∧ x < start + block.length ∧ woven.position? label = some last
      ∧ start ≤ last ∧ last < start + block.length
  dangling : woven.danglingBranch?
    = code.danglingBranch?.map fun found => (place found.1, found.2)

namespace Layout

variable {ctx : BlockContext} {subscription : Option (Field × Event × MethodId)}
  {called : List String} {anchors : List Nat} {before : String → Bool → UInt16}
  (l : Layout ctx subscription called anchors before) {code : Stream} {serial count : Nat}

theorem keepsBranches (hanchored : Anchored subscription anchors code)
    (hsettled : code.Settled serial) (hfresh : ∀ i ∈ code, ∀ n, serial ≤ n → i.label ≠ .drawn n)
    (hlabels : ((l.injected code).map (·.label)).Perm ((List.range' serial count).map .drawn)) :
    code.KeepsBranches (l.weave code) (l.place code)
      fun block => ∃ field accessor handler, ctx.Subscribes field handler accessor block where
  ordered := l.strictMono_place code
  kept := fun _ hp => l.getElem?_place (Nat.le_of_lt hp)
  resolved := fun _ hi _ htarget => position?_target hsettled hlabels hi htarget
  inside := fun x i label hi hout htarget => by
    have hinjected : i ∈ l.injected code := by
      rcases l.weave_cases hi with ⟨-, hmem⟩ | ⟨p, k, hp, -, hmem⟩ | ⟨p, hp, hx, -⟩
      · exact l.mem_injected (.inl (List.mem_of_getElem? hmem))
      · exact l.mem_injected (.inr ⟨p, hp, List.mem_of_getElem? hmem⟩)
      · exact absurd hx (hout p hp)
    obtain ⟨field, accessor, handler, block, start, last, hsubscribes, hrest⟩ :=
      inside_block hfresh hlabels hanchored hi hinjected htarget
    exact ⟨block, start, last, ⟨field, accessor, handler, hsubscribes⟩, hrest⟩
  dangling := danglingBranch?_weave hsettled hfresh hlabels hanchored

end Layout

namespace Weaving

variable {options : Options} {resolver : Resolver} {type : TypePlan} {plan : PropertyPlan}
  {w w' : Workpiece} {woven : WovenSetter} {i : MethodId}

/-- The check of a woven setter adds nothing but the verdict about its branches. -/
theorem checkedSetter_run {body : Body} (hset : plan.property.setter = some i)
    (hbody : (w'.module.method? i).bind (·.body) = some body)
    (hrun : (setter options resolver type plan).run.run w = (.ok woven, w')) :
    (checkedSetter options resolver type plan).run.run w
      = (if options.validation then (checkBranches body.code).map fun _ => woven else .ok woven, w') := by
  unfold checkedSetter
  rw [Steps.bind_run, hrun]
  dsimp only
  by_cases hvalidation : options.validation = true
  · have hget : (get : Weaving Workpiece).run.run w' = (.ok w', w') := rfl
    have hvalidate : (validate plan.property.setter).run.run w'
        = (checkBranches body.code, w') := by
      unfold validate
      rw [Steps.bind_run, hget]
      simp only [hset, Option.bind_some, hbody]
      cases checkBranches body.code <;> rfl
    rw [if_pos hvalidation, if_pos hvalidation, Steps.bind_run, hvalidate]
    cases checkBranches body.code <;> rfl
  · rw [if_neg hvalidation, if_neg hvalidation]
    rfl

/-- Weaving a setter keeps its branches, and the check of the woven setter fails exactly if it fails for
the unedited one. -/
theorem branches_kept {d : Method} {body : Body} (hset : plan.property.setter = some i)
    (hmethod : w.module.method? i = some d) (hbody : d.body = some body)
    (hsettled : body.code.Settled w.module.serial)
    (hfresh : ∀ j ∈ body.code, ∀ n, w.module.serial ≤ n → j.label ≠ .drawn n)
    (hrun : (setter options resolver type plan).run.run w = (.ok woven, w')) :
    ∃ m result place, w'.module.method? i = some { d with body := some result }
      ∧ body.code.KeepsBranches result.code place (fun block => ∃ field accessor handler,
        (⟨options, resolver, m, type, plan⟩ : BlockContext).Subscribes field handler accessor block)
      ∧ (checkedSetter options resolver type plan).run.run w
        = (match options.validation, body.code.danglingBranch? with
          | true, some (position, label) => .error (.danglingBranch (place position) label.number)
          | _, _ => .ok woven, w') := by
  obtain ⟨m, subscription, before, result, l, hsubscription, hstands⟩ :=
    stands_of_setter hset hmethod hbody hsettled hrun
  obtain ⟨count, hlabels⟩ := hstands.labels
  obtain ⟨hserial, -⟩ := hsubscription.kept rfl
  have hkeeps := l.keepsBranches hstands.anchored hstands.settled
    (fun j hj n hn => hfresh j hj n (Nat.le_trans hserial hn)) hlabels
  rw [← hstands.code] at hkeeps
  refine ⟨m, result, l.place body.code, hstands.method, hkeeps, ?_⟩
  have hresult : (w'.module.method? i).bind (·.body) = some result := by
    rw [hstands.method]
    rfl
  rw [checkedSetter_run hset hresult hrun]
  unfold checkBranches
  rw [hkeeps.dangling]
  cases options.validation <;> cases body.code.danglingBranch? <;> rfl

end Weaving

namespace Sapling

/-- Store the argument if there is one, else branch to nowhere. -/
def stray : List Op :=
  [.ldarg 1, .branch .brtrue (.written 3), .branch .br (.written 40), .ldarg 0, .ldarg 1, .stfld child,
    .ret]

end Sapling

namespace Weaving

/-- The body of that setter, woven. -/
def strayed : Body :=
  (((Sapling.woven Sapling.stray).2.module.method? ⟨1⟩).bind (·.body)).get (by decide +kernel)

theorem strayed_eq : ((Sapling.woven Sapling.stray).2.module.method? ⟨1⟩).bind (·.body) = some strayed :=
  (Option.some_get _).symm

open Sapling in
/-- The code of the subscription is put around the store, and the branch to nowhere is found where it was. -/
theorem branches_kept_stray :
    ∃ m place,
      (Sapling.woven stray).2.module.method? ⟨1⟩
          = some { method 31 "set_Child" 1 ⟨1⟩ (some (body stray)) with body := some strayed }
        ∧ (body stray).code.KeepsBranches strayed.code place (fun block =>
          ∃ field accessor handler, (⟨{}, .standard, m, Sapling.type, plan⟩ :
            BlockContext).Subscribes field handler accessor block)
        ∧ (List.range 7).map place = [0, 1, 2, 3, 4, 17, 33]
        ∧ (checkedSetter {} .standard Sapling.type plan).run.run ⟨module stray, {}⟩
          = (.error (.danglingBranch 2 40), (Sapling.woven stray).2) := by
  have hwoven : Sapling.woven stray = (.ok ⟨[6], 1, some ⟨8⟩⟩, (Sapling.woven stray).2) := by
    have hfirst : (Sapling.woven stray).1 = .ok ⟨[6], 1, some ⟨8⟩⟩ := by decide +kernel
    rw [← hfirst]
  have hsettled : (body stray).code.Settled (module stray).serial := by
    have hwritten : ∀ j ∈ (body stray).code,
        j.op.target?.all (fun label => label == .written 3 || label == .written 40) = true := by
      decide +kernel
    rintro j hj label hlabel n - rfl
    have htarget := hwritten j hj
    rw [hlabel] at htarget
    cases htarget
  have hmethod : (module stray).method? ⟨1⟩
      = some (method 31 "set_Child" 1 ⟨1⟩ (some (body stray))) := rfl
  have hdangling : (body stray).code.danglingBranch? = some (2, .written 40) := by decide +kernel
  obtain ⟨m, result, place, hwhere, hkeeps, hchecked⟩ :=
    @branches_kept {} .standard Sapling.type plan ⟨module stray, {}⟩ (Sapling.woven stray).2 _ ⟨1⟩ _
      (body stray) rfl hmethod rfl hsettled (fresh_body stray _) hwoven
  have hstrayed : result = strayed :=
    Option.some.inj ((congrArg (·.bind (·.body)) hwhere).symm.trans strayed_eq)
  rw [hstrayed] at hwhere hkeeps
  rw [hdangling] at hchecked
  -- no instruction comes twice, so the places are found by what stands there
  have hnodup : strayed.code.Nodup := by decide +kernel
  have hfound : ∀ p < 7, [0, 1, 2, 3, 4, 17, 33].getD p 0 < strayed.code.length
      ∧ strayed.code[[0, 1, 2, 3, 4, 17, 33].getD p 0]? = (body stray).code[p]? := by decide +kernel
  have hplace : ∀ p < 7, place p = [0, 1, 2, 3, 4, 17, 33].getD p 0 := by
    intro p hp
    obtain ⟨hlt, hat⟩ := hfound p hp
    exact ((List.getElem?_inj hlt hnodup).mp (hat.trans (hkeeps.kept p hp).symm)).symm
  refine ⟨m, place, hwhere, hkeeps, ?_, ?_⟩
  · rw [List.map_congr_left fun p hp => hplace p (List.mem_range.mp hp)]
    rfl
  · have hfails : (checkedSetter {} .standard Sapling.type plan).run.run ⟨module stray, {}⟩
        = (.error (.danglingBranch (place 2) 40), (Sapling.woven stray).2) := hchecked
    rw [hfails, hplace 2 (by decide)]
    rfl

end Weaving

end SetterLoom
