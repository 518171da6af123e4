import SetterLoom.Proofs.Code.Labels
import SetterLoom.Proofs.Machine.Reaches

/-!
# Where branches land

A body that is run looks a label up from the end of its code, and whoever edits the body from the start. A
copy of an instruction keeps the label, so a branch may land on the copy and be shown to go to the original.
As long as no second instruction carries the labels of the branches that are taken, the body may as well be
run by the editor's positions.

* `Reaches.runs_on`: from where a run gets to, it goes on as if it had started there.
* `Site.runBy`: runs with the labels of branches looked up in a given way.
* `Site.branch_lands_last`: where every branch that is taken lands, and when that is the editor's position.
-/

namespace SetterLoom
set_option autoImplicit false

namespace Site

variable {c : Site} {call : Call} {code : Stream} {p q bound : Nat} {f g h : Frame} {s t u : Machine}
  {i : Instruction} {l : Label}

/-! ## One branch -/

theorem Reaches.runs_on (hreach : c.Reaches call code p f s q g t) :
    ∃ n, ∀ bound, c.runFrom call code (bound + n) p f s = c.runFrom call code bound q g t := by
  induction hreach with
  | start => exact ⟨0, fun _ => rfl⟩
  | next _ hi hdoes ih =>
    obtain ⟨n, hn⟩ := ih
    refine ⟨n + 1, fun bound => ?_⟩
    rw [Nat.add_comm n, ← Nat.add_assoc, hn, runFrom_succ hi hdoes]
    rfl
  | jump _ hi hdoes hr ih =>
    obtain ⟨n, hn⟩ := ih
    refine ⟨n + 1, fun bound => ?_⟩
    rw [Nat.add_comm n, ← Nat.add_assoc, hn, runFrom_succ hi hdoes]
    simp only [continue?, hr]

/-- A branch to a label that is carried lands at the label's last position. -/
theorem runFrom_jump (hi : code[q]? = some i) (hdoes : c.Does call i.op g t (.jump l h) u) {x : Nat}
    (hx : code.lastPosition? l = some x) (bound : Nat) :
    c.runFrom call code (bound + 1) q g t = c.runFrom call code bound x h u := by
  rw [runFrom_succ hi hdoes]
  simp only [continue?, hx]

/-- A branch fails for its label, however many instructions are allowed, exactly if the editor finds no
position for it. -/
theorem jump_fails_iff (hi : code[q]? = some i) (hdoes : c.Does call i.op g t (.jump l h) u) :
    (∀ bound, c.runFrom call code (bound + 1) q g t
      = (.error (.emulation (.unknownLabel c.name)), u)) ↔ code.position? l = none := by
  rw [← Stream.lastPosition?_eq_none_iff]
  constructor
  · intro hfails
    cases hx : code.lastPosition? l with
    | none => rfl
    | some x =>
      -- with no instruction left behind the branch, the run would end by the limit
      have hlimit := (runFrom_jump hi hdoes hx 0).symm.trans (hfails 0)
      cases (Prod.mk.inj hlimit).1
  · intro hnone bound
    rw [runFrom_succ hi hdoes]
    simp only [continue?, hnone]

/-! ## Runs by other positions -/

/-- Run code from a position, where a branch goes to the position that `find` gives for its label. -/
def runBy (c : Site) (call : Call) (code : Stream) (find : Label → Option Nat) :
    Nat → Nat → Frame → Machine → Except Error Value × Machine
  | 0, _, _, s => (.error (.emulation (.instructionLimit s.limit c.name)), s)
  | bound + 1, position, f, s =>
    match code[position]? with
    | none => (.error (.emulation (.pastTheEnd c.name)), s)
    | some i =>
      if s.limit ≤ s.executed then
        (.error (.emulation (s.exhausted c.name)),
          { s with executed := s.executed + 1 })
      else
        match c.step call i.op f { s with executed := s.executed + 1 } with
        | (.error e, s) => (.error e, s)
        | (.ok (.next f), s) => runBy c call code find bound (position + 1) f s
        | (.ok (.done v), s) => (.ok v, s)
        | (.ok (.jump l f), s) =>
          match find l with
          | some position => runBy c call code find bound position f s
          | none => (.error (.emulation (.unknownLabel c.name)), s)

/-- A run does not tell one way to look labels up from another if both find the same positions for the
labels of all branches that are taken. -/
theorem runBy_eq_runFrom {find : Label → Option Nat}
    (hfind : ∀ q g t i l h u, c.Reaches call code p f s q g t → code[q]? = some i →
      c.Does call i.op g t (.jump l h) u → find l = code.lastPosition? l) :
    c.runBy call code find bound p f s = c.runFrom call code bound p f s := by
  -- by induction on the bound: what a run gets to behind its first instruction, the
  -- whole run gets to, so the hypothesis is handed on
  induction bound generalizing p f s with
  | zero => rfl
  | succ bound ih =>
    rw [runBy, runFrom]
    cases hi : code[p]? with
    | none => rfl
    | some i =>
      dsimp only
      split
      · rfl
      · rename_i hlimit
        cases hstep : c.step call i.op f { s with executed := s.executed + 1 } with
        | mk result t =>
          cases result with
          | error e => rfl
          | ok way =>
            have hdoes : c.Does call i.op f s way t := ⟨Nat.lt_of_not_le hlimit, hstep⟩
            cases way with
            | next g =>
              exact ih fun q k x j l h u hreach =>
                hfind q k x j l h u ((Reaches.next .start hi hdoes).trans hreach)
            | done v => rfl
            | jump l g =>
              dsimp only
              rw [hfind p f s i l g t .start hi hdoes]
              cases hr : code.lastPosition? l with
              | none => rfl
              | some r =>
                exact ih fun q k x j l h u hreach =>
                  hfind q k x j l h u ((Reaches.jump .start hi hdoes hr).trans hreach)

/-- **Where branches land.** A run that gets to a branch and takes it goes on at the last instruction that
carries the label, at or behind the position that the editor finds. That is the editor's position exactly if
no second instruction carries the label. The branch fails for its label exactly if the editor finds no
position. So a run in which each branch that is taken names a label that is carried once is the run by the
editor's positions. -/
theorem branch_lands_last (c : Site) (call : Call) (code : Stream) (p : Nat) (f : Frame) (s : Machine) :
    (∀ q g t i l h u, c.Reaches call code p f s q g t → code[q]? = some i →
      c.Does call i.op g t (.jump l h) u →
        i.op.target? = some l
          ∧ (∃ n, ∀ bound, c.runFrom call code (bound + n) p f s = c.runFrom call code bound q g t)
          ∧ (∀ x, code.position? l = some x → ∃ y j, x ≤ y ∧ code[y]? = some j ∧ j.label = l
            ∧ (∀ z k, y < z → code[z]? = some k → k.label ≠ l)
            ∧ (∀ bound, c.runFrom call code (bound + 1) q g t = c.runFrom call code bound y h u)
            ∧ (y = x ↔ code.CarriedOnce l))
          ∧ ((∀ bound, c.runFrom call code (bound + 1) q g t
            = (.error (.emulation (.unknownLabel c.name)), u)) ↔ code.position? l = none))
      ∧ ((∀ q g t i l h u, c.Reaches call code p f s q g t → code[q]? = some i →
        c.Does call i.op g t (.jump l h) u → code.CarriedOnce l) →
          ∀ bound, c.runBy call code code.position? bound p f s = c.runFrom call code bound p f s) := by
  refine ⟨fun q g t i l h u hreach hi hdoes =>
    ⟨hdoes.target_of_jump, hreach.runs_on, fun x hx => ?_, jump_fails_iff hi hdoes⟩,
    fun honce bound => runBy_eq_runFrom fun q g t i l h u hreach hi hdoes => ?_⟩
  · cases hy : code.lastPosition? l with
    | none =>
      rw [Stream.lastPosition?_eq_none_iff, hx] at hy
      cases hy
    | some y =>
      obtain ⟨⟨j, hj, hlabel⟩, hlast⟩ := Stream.lastPosition?_eq_some.mp hy
      have hsame : y = x ↔ code.lastPosition? l = code.position? l := by
        rw [hy, hx, Option.some.injEq]
      exact ⟨y, j, Stream.position?_le_lastPosition? hx hy, hj, hlabel, hlast, runFrom_jump hi hdoes hy,
        hsame.trans Stream.lastPosition?_eq_position?_iff⟩
  · exact (Stream.lastPosition?_eq_position?_iff.mpr (honce q g t i l h u hreach hi hdoes)).symm

end Site

/-! ## A copy behind the original -/

namespace Clones

/-- A branch to the label 7, over code that gives 1 to code that gives 2. Both start with a `nop`, and the
second one carries the label. -/
def code (first : UInt32) : Stream :=
  [⟨.written 1, .branch .br (.written 7)⟩, ⟨.written first, .nop⟩, ⟨.written 2, .ldcI4 1⟩,
    ⟨.written 3, .ret⟩, ⟨.written 7, .nop⟩, ⟨.written 4, .ldcI4 2⟩, ⟨.written 5, .ret⟩]

def pick (first : UInt32) : Method where
  token := ⟨30⟩
  name := "Pick"
  access := .publicAccess
  modifiers := .staticBit
  params := []
  returns := some ⟨0⟩
  body := some (.ofCode (code first))

def program (first : UInt32) : Module where
  name := "Clones"
  types := #[some ⟨⟨10⟩, "System", "Int32", .int32, true, none, [], [], [], [], [], []⟩]
  methods := #[some (pick first)]

/-- The frame of a body without arguments and slots. -/
def frame : Frame := ⟨[], [], []⟩

/-- The site of the method. -/
abbrev site (first : UInt32) : Site := ⟨program first, pick first⟩

theorem does_branch (first : UInt32) :
    (site first).Does (Action.invoke (program first)) (.branch .br (.written 7)) frame {}
      (.jump (.written 7) frame) { executed := 1 } :=
  ⟨by decide, rfl⟩

end Clones

open Clones in
/-- Where the first `nop` is the original of the second, the branch lands at the second, behind the position
that the editor finds; with a label of its own, both ways of running the body are the same. -/
theorem Site.branch_lands_last_clones :
    (code 7).position? (.written 7) = some 1
      ∧ (∀ bound, (site 7).runFrom (Action.invoke (program 7)) (code 7) (bound + 1) 0 frame {}
        = (site 7).runFrom (Action.invoke (program 7)) (code 7) bound 4 frame { executed := 1 })
      ∧ ∀ bound, (site 6).runBy (Action.invoke (program 6)) (code 6) (code 6).position? bound 0 frame {}
        = (site 6).runFrom (Action.invoke (program 6)) (code 6) bound 0 frame {} := by
  obtain ⟨hbranches, -⟩ :=
    Site.branch_lands_last (site 7) (Action.invoke (program 7)) (code 7) 0 frame {}
  obtain ⟨-, hruns⟩ := Site.branch_lands_last (site 6) (Action.invoke (program 6)) (code 6) 0 frame {}
  have hfound : (code 7).position? (.written 7) = some 1 := by decide
  refine ⟨hfound, ?_, hruns fun _ _ _ _ l _ _ _ _ _ => Stream.carriedOnce_of_nodup (by decide) l⟩
  obtain ⟨-, -, hlands, -⟩ := hbranches 0 frame {} _ _ _ _ .start rfl (does_branch 7)
  obtain ⟨y, j, -, hj, hlabel, hlast, hrun, -⟩ := hlands 1 hfound
  -- the label is carried at 1 and at 4, and at no position behind `y`
  have hcarried : ∀ x < 7, (code 7)[x]?.any (·.label == .written 7) = true → x = 1 ∨ x = 4 := by decide
  have hlt : y < 7 := (List.getElem?_eq_some_iff.mp hj).1
  obtain rfl | rfl := hcarried y hlt (by rw [hj, Option.any_some, hlabel]; rfl)
  · exact absurd rfl (hlast 4 _ (by decide) rfl)
  · exact hrun

open Clones in
/-- The editor finds the original behind the branch, and the run from there gives 1. The machine goes to the
copy, and the method gives 2. -/
theorem Site.clone_diverts_branch :
    (code 7).position? (.written 7) = some 1
      ∧ (site 7).Does (Action.invoke (program 7)) (.branch .br (.written 7)) frame {}
        (.jump (.written 7) frame) { executed := 1 }
      ∧ ((site 7).runFrom (Action.invoke (program 7)) (code 7) 3 1 frame { executed := 1 }).1 = .ok (.int 1)
      ∧ ((site 7).runFrom (Action.invoke (program 7)) (code 7) 4 0 frame {}).1 = .ok (.int 2)
      ∧ ((Action.invoke (program 7) ⟨0⟩ none []).run.run {}).1 = .ok (.int 2) :=
  ⟨by decide, ⟨by decide, rfl⟩, by decide +kernel, by decide +kernel, by decide +kernel⟩

end SetterLoom
