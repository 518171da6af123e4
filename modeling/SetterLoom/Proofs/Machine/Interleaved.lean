import SetterLoom.Proofs.Code.Interleave
import SetterLoom.Proofs.Machine.Straight

/-!
# Running interleaved code

Code that is put in front of the positions of other code and never branches is run exactly when control
falls through to its position: a branch goes to the instruction behind the block. A run of the
interleaved code is thus a run of the code it was made from that runs the blocks on the way.

* `ends_interleave`: the runs of interleaved code.
-/

namespace SetterLoom
set_option autoImplicit false

namespace Site

variable {c : Site} {call : Call}

/-- Operations that go on with the next instruction are run one after the other. -/
inductive Runs (c : Site) (call : Call) : List Op → Frame → Machine → Frame → Machine → Prop
  | nil (f : Frame) (s : Machine) : Runs c call [] f s f s
  | cons {op : Op} {ops : List Op} {f g h : Frame} {s t u : Machine}
    (hdoes : c.Does call op f s (.next g) t) (hrest : Runs c call ops g t h u) :
    Runs c call (op :: ops) f s h u

theorem Runs.append {ops ops' : List Op} {f g h : Frame} {s t u : Machine}
    (hrun : Runs c call ops f s g t) (hrun' : Runs c call ops' g t h u) :
    Runs c call (ops ++ ops') f s h u := by
  induction hrun with
  | nil => exact hrun'
  | cons hdoes _ ih => exact .cons hdoes (ih hrun')

theorem Runs.split {ops ops' : List Op} {f h : Frame} {s u : Machine}
    (hrun : Runs c call (ops ++ ops') f s h u) :
    ∃ g t, Runs c call ops f s g t ∧ Runs c call ops' g t h u := by
  induction ops generalizing f s with
  | nil => exact ⟨f, s, .nil f s, hrun⟩
  | cons op ops ih =>
    cases hrun with
    | cons hdoes hrest =>
      obtain ⟨g, t, hfront, hback⟩ := ih hrest
      exact ⟨g, t, .cons hdoes hfront, hback⟩

/-! ## The runs of interleaved code -/

section Woven

variable {front : List Instruction} {blocks : Nat → List Instruction} {code : Stream}

/-- The code in front and the code of the blocks goes straight on, and no branch of the unedited code
goes to it. -/
structure Aside (front : List Instruction) (blocks : Nat → List Instruction) (code : Stream) :
    Prop where
  straight_front : ∀ i ∈ front, i.op.Straight
  straight_block : ∀ p, p ≤ code.length → ∀ i ∈ blocks p, i.op.Straight
  label_front : ∀ i ∈ code, ∀ l, i.op.target? = some l → ∀ j ∈ front, j.label ≠ l
  label_block : ∀ i ∈ code, ∀ l, i.op.target? = some l →
    ∀ p, p ≤ code.length → ∀ j ∈ blocks p, j.label ≠ l

theorem lastPosition?_append_of_notMem {front rest : Stream} {l : Label}
    (h : ∀ j ∈ front, j.label ≠ l) :
    Stream.lastPosition? (front ++ rest) l = (rest.lastPosition? l).map (front.length + ·) := by
  cases hl : rest.lastPosition? l with
  | none =>
    rw [Option.map_none, Stream.lastPosition?_eq_none]
    intro j hj
    rcases List.mem_append.mp hj with hj | hj
    · exact h j hj
    · exact Stream.lastPosition?_eq_none.mp hl j hj
  | some q =>
    obtain ⟨⟨j, hj, hjl⟩, hlast⟩ := Stream.lastPosition?_eq_some.mp hl
    rw [Option.map_some, Stream.lastPosition?_eq_some]
    refine ⟨⟨j, ?_, hjl⟩, fun x i hx hi => ?_⟩
    · rw [List.getElem?_append_right (Nat.le_add_right _ _), Nat.add_sub_cancel_left, hj]
    · have hle : front.length ≤ x := by omega
      rw [List.getElem?_append_right hle] at hi
      exact hlast (x - front.length) i (by omega) hi

variable (h : Aside front blocks code)
include h

private theorem position_woven {i : Instruction} (hi : i ∈ code) {l : Label}
    (hl : i.op.target? = some l) :
    Stream.lastPosition? (front ++ code.interleave blocks) l
      = (code.lastPosition? l).map fun q => front.length + Stream.placeOf blocks q := by
  rw [lastPosition?_append_of_notMem (h.label_front i hi l hl),
    Stream.lastPosition?_interleave fun p hp j hj => h.label_block i hi l hl p hp j hj,
    Option.map_map]
  rfl

omit h in
private theorem getElem?_woven_block (front : List Instruction) {p k : Nat} (hp : p ≤ code.length)
    (hk : k < (blocks p).length) :
    (front ++ code.interleave blocks)[front.length + Stream.blockStart blocks p + k]?
      = (blocks p)[k]? := by
  rw [Nat.add_assoc, List.getElem?_append_right (Nat.le_add_right _ _), Nat.add_sub_cancel_left,
    Stream.getElem?_interleave_block blocks code hp hk]

omit h in
private theorem getElem?_woven_instruction (front : List Instruction)
    (blocks : Nat → List Instruction) {p : Nat} (hp : p ≤ code.length) :
    (front ++ code.interleave blocks)[front.length + Stream.placeOf blocks p]? = code[p]? := by
  rw [List.getElem?_append_right (Nat.le_add_right _ _), Nat.add_sub_cancel_left,
    Stream.getElem?_interleave_instruction blocks code hp]

/-- A run of the woven code from inside a block runs the rest of the block and then goes on in the
unedited code. -/
private theorem ends_of_woven {x : Nat} {f : Frame} {s t : Machine} {v : Value}
    (hends : c.Ends call (front ++ code.interleave blocks) idle x f s v t) :
    ∀ p, p ≤ code.length → ∀ k, k ≤ (blocks p).length →
      x = front.length + Stream.blockStart blocks p + k →
        ∃ g u, c.Runs call (((blocks p).drop k).map (·.op)) f s g u
          ∧ c.Ends call code (fun q => c.Runs call ((blocks q).map (·.op))) p g u v t := by
  -- what stands at the position is the next instruction of the block, or the one behind it
  have hstands : ∀ {p k x : Nat} {i : Instruction}, p ≤ code.length → k ≤ (blocks p).length →
      x = front.length + Stream.blockStart blocks p + k →
        (front ++ code.interleave blocks)[x]? = some i →
          ((blocks p)[k]? = some i ∧ k < (blocks p).length)
            ∨ (code[p]? = some i ∧ k = (blocks p).length) := by
    intro p k x i hp hk hx hi
    subst hx
    rcases Nat.lt_or_eq_of_le hk with hlt | rfl
    · rw [getElem?_woven_block front hp hlt] at hi
      exact .inl ⟨hi, hlt⟩
    · rw [Nat.add_assoc] at hi
      rw [← getElem?_woven_instruction front blocks hp]
      exact .inr ⟨hi, rfl⟩
  have hlt_of : ∀ {p : Nat} {i : Instruction}, code[p]? = some i → p < code.length :=
    fun hi => (List.getElem?_eq_some_iff.mp hi).1
  induction hends with
  | done hi hdoes =>
    intro p hp k hk hx
    rcases hstands hp hk hx hi with ⟨hin, hlt⟩ | ⟨hat, rfl⟩
    · obtain ⟨g, hg, -⟩ := hdoes.straight (h.straight_block p hp _ (List.mem_of_getElem? hin))
      cases hg
    · rw [List.drop_length]
      exact ⟨_, _, .nil _ _, .done hat hdoes⟩
  | next hi hdoes hact hrest ih =>
    obtain ⟨rfl, rfl⟩ := hact
    intro p hp k hk hx
    rcases hstands hp hk hx hi with ⟨hin, hlt⟩ | ⟨hat, rfl⟩
    · obtain ⟨g, u, hruns, hends⟩ := ih p hp (k + 1) hlt (by rw [hx]; rfl)
      refine ⟨g, u, ?_, hends⟩
      have hget : (blocks p)[k] = _ := (List.getElem?_eq_some_iff.mp hin).2
      rw [List.drop_eq_getElem_cons hlt, List.map_cons, hget]
      exact .cons hdoes hruns
    · have hlt := hlt_of hat
      obtain ⟨g, u, hruns, hends⟩ := ih (p + 1) hlt 0 (Nat.zero_le _) (by
        rw [hx, Stream.blockStart]
        omega)
      rw [List.drop_length]
      exact ⟨_, _, .nil _ _, .next hat hdoes hruns hends⟩
  | jump hi hdoes hq hrest ih =>
    intro p hp k hk hx
    rcases hstands hp hk hx hi with ⟨hin, hlt⟩ | ⟨hat, rfl⟩
    · obtain ⟨g, hg, -⟩ := hdoes.straight (h.straight_block p hp _ (List.mem_of_getElem? hin))
      cases hg
    · have hmem := List.mem_of_getElem? hat
      rw [position_woven h hmem (hdoes.target_of_jump)] at hq
      obtain ⟨q, hq', rfl⟩ := Option.map_eq_some_iff.mp hq
      obtain ⟨⟨j, hj, -⟩, -⟩ := Stream.lastPosition?_eq_some.mp hq'
      obtain ⟨g, u, hruns, hends⟩ :=
        ih q (Nat.le_of_lt (hlt_of hj)) (blocks q).length (Nat.le_refl _) (by
          rw [Stream.placeOf, Nat.add_assoc])
      rw [List.drop_length] at hruns ⊢
      cases hruns
      exact ⟨_, _, .nil _ _, .jump hat hdoes hq' hends⟩

omit h in
theorem ends_of_runs {whole : Stream} {act : OnFall} {ops : List Op} {f g : Frame}
    {s t u : Machine} {v : Value} {x : Nat} (hruns : c.Runs call ops f s g t)
    (hops : ∀ k, k < ops.length → (whole[x + k]?).map (·.op) = ops[k]?)
    (hact : ∀ k f s, act (x + k + 1) f s f s)
    (hends : c.Ends call whole act (x + ops.length) g t v u) :
    c.Ends call whole act x f s v u := by
  induction hruns generalizing x with
  | nil => exact hends
  | cons hdoes hrest ih =>
    obtain ⟨i, hi, hop⟩ := Option.map_eq_some_iff.mp (hops 0 (Nat.succ_pos _))
    subst hop
    refine .next hi hdoes (hact 0 _ _) (ih (fun k hk => ?_) (fun k f s => ?_) ?_)
    · have hnext := hops (k + 1) (Nat.succ_lt_succ hk)
      rw [List.getElem?_cons_succ] at hnext
      rw [← hnext]
      congr 2
      omega
    · have hnext := hact (k + 1) f s
      have hx : x + 1 + k + 1 = x + (k + 1) + 1 := by omega
      rw [hx]
      exact hnext
    · rw [Nat.add_right_comm]
      exact hends

omit h in
/-- A run of code that begins straight runs the straight code first. -/
theorem runs_of_ends {whole : Stream} {ops : List Op} {f : Frame} {s u : Machine} {v : Value}
    {x : Nat} (hops : ∀ k, k < ops.length → (whole[x + k]?).map (·.op) = ops[k]?)
    (hstraight : ∀ op ∈ ops, op.Straight) (hends : c.Ends call whole idle x f s v u) :
    ∃ g t, c.Runs call ops f s g t ∧ c.Ends call whole idle (x + ops.length) g t v u := by
  induction ops generalizing x f s with
  | nil => exact ⟨f, s, .nil f s, hends⟩
  | cons op ops ih =>
    obtain ⟨i, hi, hop⟩ := Option.map_eq_some_iff.mp (hops 0 (Nat.succ_pos _))
    subst hop
    have hon : i.op.Straight := hstraight _ List.mem_cons_self
    -- a straight operation goes on to the next one, so two of the three ways to go on are out
    have hother : ∀ {i' : Instruction} {way : Step} {t : Machine}, whole[x]? = some i' →
        c.Does call i'.op f s way t → i' = i ∧ ∃ g, way = .next g := by
      intro i' way t hi' hdoes
      obtain rfl := Option.some.inj (hi.symm.trans hi')
      obtain ⟨g, hg, -⟩ := hdoes.straight hon
      exact ⟨rfl, g, hg⟩
    cases hends with
    | done hi' hdoes => exact absurd (hother hi' hdoes).2 nofun
    | jump hi' hdoes => exact absurd (hother hi' hdoes).2 nofun
    | next hi' hdoes hact hrest =>
      obtain ⟨rfl, -⟩ := hother hi' hdoes
      obtain ⟨rfl, rfl⟩ := hact
      have htail : ∀ k, k < ops.length → (whole[x + 1 + k]?).map (·.op) = ops[k]? := by
        intro k hk
        rw [Nat.add_right_comm]
        exact hops (k + 1) (Nat.succ_lt_succ hk)
      obtain ⟨g, t, hruns, hends⟩ :=
        ih htail (fun o ho => hstraight o (List.mem_cons_of_mem _ ho)) hrest
      rw [Nat.add_right_comm] at hends
      exact ⟨g, t, .cons hdoes hruns, hends⟩

/-- A run of the unedited code that runs the blocks on the way is a run of the woven code. -/
private theorem woven_of_ends {p : Nat} {f : Frame} {s t : Machine} {v : Value}
    (hends : c.Ends call code (fun q => c.Runs call ((blocks q).map (·.op))) p f s v t) :
    c.Ends call (front ++ code.interleave blocks) idle
      (front.length + Stream.placeOf blocks p) f s v t := by
  have hlt_of : ∀ {p : Nat} {i : Instruction}, code[p]? = some i → p < code.length :=
    fun hi => (List.getElem?_eq_some_iff.mp hi).1
  -- by induction on the run: behind an instruction that goes on,
  -- the block of the next position was run
  induction hends with
  | done hi hdoes =>
    rw [← getElem?_woven_instruction front blocks
      (Nat.le_of_lt (hlt_of hi))] at hi
    exact .done hi hdoes
  | @next p i f g h' s t u x v hi hdoes hact hrest ih =>
    have hlt := hlt_of hi
    rw [← getElem?_woven_instruction front blocks
      (Nat.le_of_lt hlt)] at hi
    refine .next hi hdoes ⟨rfl, rfl⟩ ?_
    have hstart : front.length + Stream.placeOf blocks p + 1
        = front.length + Stream.blockStart blocks (p + 1) := by
      rw [Stream.blockStart, Stream.placeOf]
      omega
    rw [hstart]
    -- the step onto the next position runs its block, which `hact`
    -- has, and then the induction goes on
    refine ends_of_runs hact (fun k hk => ?_) (fun _ _ _ => ⟨rfl, rfl⟩) ?_
    · rw [List.length_map] at hk
      rw [getElem?_woven_block front hlt hk, List.getElem?_map]
    · rw [List.length_map, Nat.add_assoc]
      exact ih
  | @jump p q i l f g s t x v hi hdoes hq hrest ih =>
    have hmem := List.mem_of_getElem? hi
    rw [← getElem?_woven_instruction front blocks
      (Nat.le_of_lt (hlt_of hi))] at hi
    refine .jump hi hdoes ?_ ih
    rw [position_woven h hmem (hdoes.target_of_jump), hq, Option.map_some]

/-- A run of interleaved code with code in front runs the code in front, and then the unedited code
with the block of every position that control falls through to. -/
theorem ends_interleave {f : Frame} {s t : Machine} {v : Value} :
    c.Ends call (front ++ code.interleave blocks) idle 0 f s v t
      ↔ ∃ g u h x, c.Runs call (front.map (·.op)) f s g u
        ∧ c.Runs call ((blocks 0).map (·.op)) g u h x
        ∧ c.Ends call code (fun q => c.Runs call ((blocks q).map (·.op))) 0 h x v t := by
  constructor
  · intro hends
    have hops : ∀ k, k < (front.map (·.op)).length →
        ((front ++ code.interleave blocks)[0 + k]?).map (·.op) = (front.map (·.op))[k]? := by
      intro k hk
      rw [List.length_map] at hk
      rw [Nat.zero_add, List.getElem?_append_left hk, List.getElem?_map]
    have hstraight : ∀ op ∈ front.map (·.op), op.Straight := by
      intro op hop
      obtain ⟨i, hi, rfl⟩ := List.mem_map.mp hop
      exact h.straight_front i hi
    obtain ⟨g, u, hfront, hrest⟩ := runs_of_ends hops hstraight hends
    rw [List.length_map, Nat.zero_add] at hrest
    obtain ⟨h', x, hblock, hrest⟩ := ends_of_woven h hrest 0 (Nat.zero_le _) 0 (Nat.zero_le _) rfl
    exact ⟨g, u, h', x, hfront, hblock, hrest⟩
  · rintro ⟨g, u, h', x, hfront, hblock, hends⟩
    have hwoven := woven_of_ends h hends
    refine ends_of_runs hfront (fun k hk => ?_) (fun _ _ _ => ⟨rfl, rfl⟩) ?_
    · rw [List.length_map] at hk
      rw [Nat.zero_add, List.getElem?_append_left hk, List.getElem?_map]
    · rw [List.length_map, Nat.zero_add]
      refine ends_of_runs hblock (fun k hk => ?_) (fun _ _ _ => ⟨rfl, rfl⟩) ?_
      · rw [List.length_map] at hk
        have hget := getElem?_woven_block front (Nat.zero_le code.length) hk
        rw [Stream.blockStart, Nat.add_zero] at hget
        rw [hget, List.getElem?_map]
      · rw [List.length_map]
        rw [Stream.placeOf, Stream.blockStart, Nat.zero_add] at hwoven
        exact hwoven

end Woven

end Site

end SetterLoom
