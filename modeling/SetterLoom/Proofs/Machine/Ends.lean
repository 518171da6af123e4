import SetterLoom.Machine.Run

/-!
# Runs that end

A run of code that ends normally is a sequence of instructions, each of which was run within the limit,
and the last one of which returned. How many instructions the run was allowed does not matter then, and
so such runs can be taken apart and put together by their instructions.

Runs may do something of their own whenever control falls through to a position, that is, comes to it
from the instruction in front and not by a branch.

* `runFrom_succ`, `runFrom_ok`: one more instruction.
* `ends_of_runFrom`: a run that ends normally is such a sequence.
-/

namespace SetterLoom.Site
set_option autoImplicit false

/-- An operation is run within the limit, and the body goes on as given. -/
def Does (c : Site) (call : Call) (op : Op) (f : Frame) (s : Machine) (way : Step) (t : Machine) :
    Prop :=
  s.executed < s.limit
    ∧ (c.step call op f).run.run { s with executed := s.executed + 1 } = (.ok way, t)

/-- What a run does when control falls through to a position. -/
abbrev OnFall := Nat → Frame → Machine → Frame → Machine → Prop

/-- Nothing is done. -/
def idle : OnFall := fun _ f s g t => g = f ∧ t = s

/-- A run from a position ends with a result; `act` is done wherever control falls through. -/
inductive Ends (c : Site) (call : Call) (code : Stream) (act : OnFall) :
    Nat → Frame → Machine → Value → Machine → Prop
  | done {p : Nat} {i : Instruction} {f : Frame} {s t : Machine} {v : Value}
    (hi : code[p]? = some i) (h : c.Does call i.op f s (.done v) t) : Ends c call code act p f s v t
  | next {p : Nat} {i : Instruction} {f g h : Frame} {s t u x : Machine} {v : Value}
    (hi : code[p]? = some i) (hdoes : c.Does call i.op f s (.next g) t)
    (hact : act (p + 1) g t h u) (hrest : Ends c call code act (p + 1) h u v x) :
    Ends c call code act p f s v x
  | jump {p q : Nat} {i : Instruction} {l : Label} {f g : Frame} {s t x : Machine} {v : Value}
    (hi : code[p]? = some i) (hdoes : c.Does call i.op f s (.jump l g) t)
    (hq : code.lastPosition? l = some q) (hrest : Ends c call code act q g t v x) :
    Ends c call code act p f s v x

variable {c : Site} {call : Call} {code : Stream} {p bound : Nat} {f : Frame} {s t : Machine}
  {v : Value}

/-- How a run goes on behind an instruction. -/
def continue? (c : Site) (call : Call) (code : Stream) (bound p : Nat) (way : Step) (s : Machine) :
    Except Error Value × Machine :=
  match way with
  | .next f => c.runFrom call code bound (p + 1) f s
  | .done v => (.ok v, s)
  | .jump l f =>
    match code.lastPosition? l with
    | some q => c.runFrom call code bound q f s
    | none => (.error (.emulation (.unknownLabel c.name)), s)

theorem runFrom_succ {i : Instruction} {way : Step} (hi : code[p]? = some i)
    (h : c.Does call i.op f s way t) :
    c.runFrom call code (bound + 1) p f s = c.continue? call code bound p way t := by
  have hstep : c.step call i.op f { s with executed := s.executed + 1 } = (.ok way, t) := h.2
  rw [runFrom, hi]
  simp only [if_neg (Nat.not_le.mpr h.1), hstep]
  unfold continue?
  cases way <;> rfl

theorem runFrom_ok (h : c.runFrom call code (bound + 1) p f s = (.ok v, t)) :
    ∃ i way u, code[p]? = some i ∧ c.Does call i.op f s way u
      ∧ c.continue? call code bound p way u = (.ok v, t) := by
  unfold runFrom at h
  cases hi : code[p]? with
  | none =>
    rw [hi] at h
    cases (Prod.mk.inj h).1
  | some i =>
    simp only [hi] at h
    by_cases hlimit : s.limit ≤ s.executed
    · rw [if_pos hlimit] at h
      cases (Prod.mk.inj h).1
    · rw [if_neg hlimit] at h
      cases hstep : c.step call i.op f { s with executed := s.executed + 1 } with
      | mk result u =>
        rw [hstep] at h
        cases result with
        | error e => cases (Prod.mk.inj h).1
        | ok way =>
          refine ⟨i, way, u, rfl, ⟨Nat.lt_of_not_le hlimit, hstep⟩, ?_⟩
          cases way <;> exact h

/-- A run that ends normally is a sequence of instructions. -/
theorem ends_of_runFrom (h : c.runFrom call code bound p f s = (.ok v, t)) :
    c.Ends call code idle p f s v t := by
  induction bound generalizing p f s with
  | zero => cases (Prod.mk.inj h).1
  | succ bound ih =>
    obtain ⟨i, way, u, hi, hdoes, hrest⟩ := runFrom_ok h
    unfold continue? at hrest
    cases way with
    | next g => exact .next hi hdoes ⟨rfl, rfl⟩ (ih hrest)
    | done v =>
      obtain ⟨hv, rfl⟩ := Prod.mk.inj hrest
      cases hv
      exact .done hi hdoes
    | jump l g =>
      cases hl : code.lastPosition? l with
      | none =>
        simp only [hl] at hrest
        cases (Prod.mk.inj hrest).1
      | some q =>
        simp only [hl] at hrest
        exact .jump hi hdoes hl (ih hrest)

theorem Ends.imp {act act' : OnFall} (h : c.Ends call code act p f s v t)
    (hact : ∀ q f s g t, act q f s g t → act' q f s g t) : c.Ends call code act' p f s v t := by
  induction h with
  | done hi hdoes => exact .done hi hdoes
  | next hi hdoes hfall _ ih => exact .next hi hdoes (hact _ _ _ _ _ hfall) ih
  | jump hi hdoes hq _ ih => exact .jump hi hdoes hq ih

end SetterLoom.Site
