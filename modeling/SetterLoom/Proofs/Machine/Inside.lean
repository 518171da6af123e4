import SetterLoom.Proofs.Code.Interleave
import SetterLoom.Proofs.Machine.Reaches

/-!
# Control stays in the code

Control goes from an instruction to the one behind it, or to one that carries the label of a branch. If
every label that code names is carried by one of its instructions, then no run of the code looks for a label
in vain, and the only way out of the code is past its last instruction. This depends neither on the frame
and the state that the run starts in nor on what its calls do.

* `Stream.Resolves`: every label that the code names is there.
* `Site.runAstray`: runs with every other way out of the code left open.
* `Site.inside_of_resolves`: control stays inside such code.
-/

namespace SetterLoom
set_option autoImplicit false

namespace Stream

variable {code : Stream} {i : Instruction} {l : Label} {p : Nat}

/-- Every label that an instruction of the code names is carried by one of its instructions. -/
def Resolves (code : Stream) : Prop :=
  ∀ i ∈ code, ∀ l, i.op.target? = some l → ∃ j ∈ code, j.label = l

theorem lt_length_of_lastPosition? (h : code.lastPosition? l = some p) : p < code.length := by
  obtain ⟨⟨i, hi, -⟩, -⟩ := lastPosition?_eq_some.mp h
  exact (List.getElem?_eq_some_iff.mp hi).1

theorem Resolves.exists_position (h : code.Resolves) (hi : i ∈ code) (hl : i.op.target? = some l) :
    ∃ p, code.lastPosition? l = some p ∧ p < code.length := by
  obtain ⟨j, hj, hlabel⟩ := h i hi l hl
  cases hp : code.lastPosition? l with
  | none => exact absurd hlabel (lastPosition?_eq_none.mp hp j hj)
  | some p => exact ⟨p, rfl, lt_length_of_lastPosition? hp⟩

end Stream

namespace Site

/-- Run code from a position, where it is left open what comes of a branch to a label that no instruction
carries, and of control that is neither at an instruction nor right behind the last one. -/
def runAstray (c : Site) (call : Call) (code : Stream) (nowhere : Label → Frame → Action Value)
    (outside : Nat → Frame → Action Value) :
    Nat → Nat → Frame → Machine → Except Error Value × Machine
  | 0, _, _, s => (.error (.emulation (.instructionLimit s.limit c.name)), s)
  | bound + 1, position, f, s =>
    match code[position]? with
    | none =>
      if position = code.length then (.error (.emulation (.pastTheEnd c.name)), s)
      else outside position f s
    | some i =>
      if s.limit ≤ s.executed then
        (.error (.emulation (s.exhausted c.name)),
          { s with executed := s.executed + 1 })
      else
        match c.step call i.op f { s with executed := s.executed + 1 } with
        | (.error e, s) => (.error e, s)
        | (.ok (.next f), s) => runAstray c call code nowhere outside bound (position + 1) f s
        | (.ok (.done v), s) => (.ok v, s)
        | (.ok (.jump l f), s) =>
          match code.lastPosition? l with
          | some position => runAstray c call code nowhere outside bound position f s
          | none => nowhere l f s

/-- Control of a body that starts in a frame and a state stays inside its code. -/
structure Inside (c : Site) (call : Call) (code : Stream) (f : Frame) (s : Machine) : Prop where
  /-- Control is at an instruction, or it has just run past the last one. -/
  positions : ∀ q g t, c.Reaches call code 0 f s q g t → q < code.length
    ∨ q = code.length ∧ ∀ i, code.getLast? = some i → ∃ h u,
      c.Reaches call code 0 f s (code.length - 1) h u ∧ c.Does call i.op h u (.next g) t
  /-- A branch that is taken goes to an instruction that carries its label. -/
  branches : ∀ q g t i l h u, c.Reaches call code 0 f s q g t → code[q]? = some i →
    c.Does call i.op g t (.jump l h) u →
      ∃ p j, code.lastPosition? l = some p ∧ code[p]? = some j ∧ j.label = l
  /-- What would come of control astray makes no difference. -/
  runs : ∀ nowhere outside bound,
    c.runAstray call code nowhere outside bound 0 f s = c.runFrom call code bound 0 f s

variable {c : Site} {call : Call} {code : Stream} {f : Frame} {s : Machine}

/-- A run that starts inside the code or at its end does not go astray. -/
theorem runAstray_eq_runFrom (hresolves : code.Resolves) (nowhere : Label → Frame → Action Value)
    (outside : Nat → Frame → Action Value) (bound : Nat) {p : Nat} (hp : p ≤ code.length) :
    c.runAstray call code nowhere outside bound p f s = c.runFrom call code bound p f s := by
  -- the invariant is the bound on the position: the next one is at most behind
  -- the last instruction, and a label leads inside
  induction bound generalizing p f s with
  | zero => rfl
  | succ bound ih =>
    rw [runAstray, runFrom]
    cases hi : code[p]? with
    | none =>
      have hend : p = code.length := Nat.le_antisymm hp (List.getElem?_eq_none_iff.mp hi)
      dsimp only
      rw [if_pos hend]
    | some i =>
      obtain ⟨hlt, rfl⟩ := List.getElem?_eq_some_iff.mp hi
      dsimp only
      split
      · rfl
      · rename_i hlimit
        cases hstep : c.step call code[p].op f { s with executed := s.executed + 1 } with
        | mk result t =>
          cases result with
          | error e => rfl
          | ok way =>
            cases way with
            | next g => exact ih hlt
            | done v => rfl
            | jump l g =>
              have hdoes : c.Does call code[p].op f s (.jump l g) t := ⟨Nat.lt_of_not_le hlimit, hstep⟩
              obtain ⟨q, hq, hqlt⟩ :=
                hresolves.exists_position (List.getElem_mem hlt) hdoes.target_of_jump
              dsimp only
              rw [hq]
              exact ih (Nat.le_of_lt hqlt)

/-- What a run gets to from the start of the code is inside, or right behind the last instruction. -/
theorem Reaches.inside (hresolves : code.Resolves) {q : Nat} {g : Frame} {t : Machine}
    (h : c.Reaches call code 0 f s q g t) : q < code.length
      ∨ q = code.length ∧ ∀ i, code.getLast? = some i → ∃ h u,
        c.Reaches call code 0 f s (code.length - 1) h u ∧ c.Does call i.op h u (.next g) t := by
  cases h with
  | start =>
    rcases Nat.eq_zero_or_pos code.length with hempty | hpos
    · rw [List.length_eq_zero_iff] at hempty
      subst hempty
      exact .inr ⟨rfl, fun i hi => absurd hi (by simp)⟩
    · exact .inl hpos
  | @next q i g _ t _ hreach hi hdoes =>
    have hlt : q < code.length := (List.getElem?_eq_some_iff.mp hi).1
    rcases Nat.lt_or_ge (q + 1) code.length with hinside | hbehind
    · exact .inl hinside
    · have hlast : q = code.length - 1 := by omega
      refine .inr ⟨by omega, fun j hj => ?_⟩
      rw [List.getLast?_eq_getElem?, ← hlast, hi] at hj
      obtain rfl := Option.some.inj hj
      rw [← hlast]
      exact ⟨g, t, hreach, hdoes⟩
  | jump hreach hi hdoes hr => exact .inl (Stream.lt_length_of_lastPosition? hr)

/-- Control stays inside code that carries every label that it names, in every frame and state and whatever
the calls do. -/
theorem inside_of_resolves (hresolves : code.Resolves) (c : Site) (call : Call) (f : Frame)
    (s : Machine) : c.Inside call code f s where
  positions _ _ _ h := h.inside hresolves
  branches q g t i l h u _ hi hdoes := by
    obtain ⟨p, hp, -⟩ := hresolves.exists_position (List.mem_of_getElem? hi) hdoes.target_of_jump
    obtain ⟨⟨j, hj, hlabel⟩, -⟩ := Stream.lastPosition?_eq_some.mp hp
    exact ⟨p, j, hp, hj, hlabel⟩
  runs nowhere outside bound := runAstray_eq_runFrom hresolves nowhere outside bound (Nat.zero_le _)

end Site

end SetterLoom
