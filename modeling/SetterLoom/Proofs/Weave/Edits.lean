import SetterLoom.Module.Edit
import SetterLoom.Proofs.Code.Interleave
import SetterLoom.Proofs.Weave.Steps

/-!
# Edits from the highest position down

Positions are found in the unedited code, and then the edits are made one after another, none of them behind
an earlier one. So no edit moves a position that is still to be used: what comes of all edits is the unedited
code with a block in front of each position, which is made of the code of the edits at that position, the last
edit first.

* `Stream.insertAll_interleave`: insertions go in front of the blocks that are there already.
* `Draft.insertions_run`, `Draft.insert_beyond`, `Module.editBody_beyond`: bodies that are edited in place.
* `Stream.insertions_descend`: what comes of a list of insertions.
-/

namespace SetterLoom
set_option autoImplicit false

/-- Code that is inserted, and the position that it goes in front of. -/
structure Insertion where
  position : Nat
  block : List Instruction
  deriving DecidableEq, Repr

namespace Stream

variable {s s' : Stream} {e : Insertion} {edits : List Insertion} {behind : List Nat}

/-- Make insertions one after another, and give the positions behind them. -/
def insertAll (s : Stream) : List Insertion → Except Error (List Nat × Stream)
  | [] => .ok ([], s)
  | e :: rest => do
    let (behind, s) ← s.insertAt e.position e.block
    let (others, s) ← insertAll s rest
    return (behind :: others, s)

theorem insertAll_cons_ok :
    s.insertAll (e :: edits) = .ok (behind, s')
      ↔ ∃ first middle others, s.insertAt e.position e.block = .ok (first, middle)
        ∧ middle.insertAll edits = .ok (others, s') ∧ behind = first :: others := by
  rw [insertAll]
  cases hfirst : s.insertAt e.position e.block with
  | error error => simp [bind, Except.bind]
  | ok inserted =>
    cases hothers : inserted.2.insertAll edits with
    | error error =>
      simp only [bind, Except.bind, hothers, reduceCtorEq, false_iff]
      rintro ⟨first, middle, others, hinserted, hmiddle, -⟩
      obtain rfl := Except.ok.inj hinserted
      rw [hothers] at hmiddle
      cases hmiddle
    | ok edited =>
      simp only [bind, Except.bind, hothers, pure, Except.pure, Except.ok.injEq, Prod.mk.injEq]
      constructor
      · rintro ⟨rfl, rfl⟩
        exact ⟨_, _, _, rfl, hothers, rfl⟩
      · rintro ⟨first, middle, others, rfl, hmiddle, rfl⟩
        obtain rfl := Except.ok.inj (hothers.symm.trans hmiddle)
        exact ⟨rfl, rfl⟩

/-- The code of the insertions at a position, that of the last one first. -/
def blocksOf (edits : List Insertion) (p : Nat) : List Instruction :=
  (edits.filter (·.position == p)).reverse.flatMap (·.block)

theorem blocksOf_cons (e : Insertion) (edits : List Insertion) (p : Nat) :
    blocksOf (e :: edits) p = blocksOf edits p ++ if p = e.position then e.block else [] := by
  unfold blocksOf
  rw [List.filter_cons]
  by_cases hp : p = e.position
  · rw [if_pos (beq_iff_eq.mpr hp.symm), if_pos hp, List.reverse_cons, List.flatMap_append,
      List.flatMap_singleton]
  · rw [if_neg fun h => hp (beq_iff_eq.mp h).symm, if_neg hp, List.append_nil]

theorem blocksOf_putBefore (blocks : Nat → List Instruction) (e : Insertion) (edits : List Insertion) :
    (fun p => blocksOf edits p ++ putBefore blocks e.position e.block p)
      = fun p => blocksOf (e :: edits) p ++ blocks p := by
  funext p
  rw [blocksOf_cons, putBefore]
  split
  · rw [List.append_assoc]
  · rw [List.append_nil]

/-- Insertions into code that has no blocks in front of them put their code in front of the blocks that it
has. -/
theorem insertAll_interleave {blocks : Nat → List Instruction}
    (hdescending : edits.Pairwise fun e e' => e'.position ≤ e.position)
    (hlow : ∀ e ∈ edits, ∀ p, p < e.position → blocks p = [])
    (hle : ∀ e ∈ edits, e.position ≤ s.length) :
    (s.interleave blocks).insertAll edits
      = .ok (edits.map fun e => e.position + e.block.length,
          s.interleave fun p => blocksOf edits p ++ blocks p) := by
  induction edits generalizing blocks with
  | nil => rfl
  | cons e rest ih =>
    rw [List.pairwise_cons] at hdescending
    have hposition : e.position ≤ s.length := hle e List.mem_cons_self
    have hbelow : ∀ p, p < e.position → blocks p = [] := hlow e List.mem_cons_self
    have hinsert : (s.interleave blocks).insertAt e.position e.block
        = .ok (e.position + e.block.length, s.interleave (putBefore blocks e.position e.block)) := by
      rw [insertAt_eq_ok e.block (Nat.le_trans hposition (length_le_interleave blocks s)),
        insertAt_interleave e.block hbelow hposition]
    -- the edits that are still to be made are at this position or in front of it
    have hrest := @ih (putBefore blocks e.position e.block) hdescending.2
      (fun e' he' p hp => by
        have hlt : p < e.position := Nat.lt_of_lt_of_le hp (hdescending.1 e' he')
        rw [putBefore, if_neg (Nat.ne_of_lt hlt), hbelow p hlt])
      fun e' he' => hle e' (List.mem_cons_of_mem e he')
    rw [blocksOf_putBefore] at hrest
    exact insertAll_cons_ok.mpr ⟨_, _, _, hinsert, hrest, rfl⟩

theorem position_le_of_descending {n : Nat}
    (hdescending : edits.Pairwise fun e e' => e'.position ≤ e.position)
    (hfirst : ∀ e, edits.head? = some e → e.position ≤ n) : ∀ e ∈ edits, e.position ≤ n := by
  cases edits with
  | nil => exact fun e he => absurd he List.not_mem_nil
  | cons first rest =>
    intro e he
    have hle : first.position ≤ n := hfirst first rfl
    rcases List.mem_cons.mp he with rfl | hmem
    · exact hle
    · exact Nat.le_trans ((List.pairwise_cons.mp hdescending).1 e hmem) hle

end Stream

/-! ## Edits in place -/

namespace Draft

theorem insert_beyond (d : Draft) (block : List Instruction) {position : Nat}
    (h : d.body.code.length < position) :
    (insert position block).run.run d
      = (.error (.positionOutOfRange position d.body.code.length), d) := by
  show insert position block d = _
  unfold insert
  rw [Stream.insertAt_eq_error block h]

theorem insertions_run {d : Draft} {edits : List Insertion} {behind : List Nat} {code : Stream}
    (h : d.body.code.insertAll edits = .ok (behind, code)) :
    (edits.forM fun e => insert e.position e.block).run.run d
      = (.ok (), { d with body := { d.body with code } }) := by
  induction edits generalizing d behind with
  | nil =>
    obtain ⟨-, rfl⟩ := Prod.mk.inj (Except.ok.inj h)
    rfl
  | cons e rest ih =>
    obtain ⟨first, middle, others, hfirst, hothers, -⟩ := Stream.insertAll_cons_ok.mp h
    have hinsert : (insert e.position e.block).run.run d
        = (.ok (), { d with body := { d.body with code := middle } }) := by
      show insert e.position e.block d = _
      unfold insert
      rw [hfirst]
    rw [List.forM_eq_forM, List.forM_cons]
    exact Steps.bind_ok.mpr ⟨(), _, hinsert, ih hothers⟩

end Draft

namespace Module

theorem setBody_self {m : Module} {i : MethodId} {body : Body}
    (h : (m.method? i).bind (·.body) = some body) : m.setBody i (some body) = m := by
  obtain ⟨d, hd, hbody⟩ := Option.bind_eq_some_iff.mp h
  have hself : { d with body := some body } = d := by rw [← hbody]
  have hstored : m.methods[i.index]? = some (some d) := Option.join_eq_some_iff.mp hd
  have hmethods : m.methods.modify i.index (Option.map fun d => { d with body := some body })
      = m.methods := by
    refine Array.ext_getElem? fun k => ?_
    rw [Array.getElem?_modify]
    split
    · rename_i hk
      rw [← hk, hstored, Option.map_some, Option.map_some, hself]
    · rfl
  rw [setBody, updateMethod, hmethods]

/-- An edit by hand beyond the end of the body is refused, and changes nothing. -/
theorem editBody_beyond {m : Module} {i : MethodId} {body : Body} (block : List Instruction)
    {position : Nat} (hbody : (m.method? i).bind (·.body) = some body)
    (h : body.code.length < position) :
    m.editBody i none (.position position) block
      = (.error (.positionOutOfRange position body.code.length), m) := by
  unfold editBody
  rw [hbody]
  simp only [Option.elim_none, Stream.insertInto, Stream.insertAt_eq_error block h]
  rw [setBody_self hbody]

end Module

/-- **Edits from the highest position down.** Insertions one after another, each at or in front of the one
before it and the first one at a position of the code, all succeed, in the code and in a body that is edited
in place, and each gives its position plus the length of its code. They leave the unedited code with a block in
front of each position: the code of the insertions there, that of the last one first. Code that is put in
front at last stands in front of all that. An insertion beyond the end is refused and changes nothing. -/
theorem Stream.insertions_descend :
    (∀ (s : Stream) (edits : List Insertion) (front : List Instruction),
      edits.Pairwise (fun e e' => e'.position ≤ e.position) →
      (∀ e, edits.head? = some e → e.position ≤ s.length) →
        ∃ edited : Stream,
          s.insertAll edits = .ok (edits.map fun e => e.position + e.block.length, edited)
            ∧ edited = (List.range (s.length + 1)).flatMap (fun p => blocksOf edits p ++ s[p]?.toList)
            ∧ edited.prepend front = (front.length, front ++ edited)
            ∧ ∀ d : Draft, d.body.code = s →
              ((edits.forM fun e => Draft.insert e.position e.block) >>= fun _ =>
                Draft.prepend front).run.run d
                = (.ok (), { d with body := { d.body with code := front ++ edited } }))
      ∧ (∀ (s : Stream) (position : Nat) (block : List Instruction), s.length < position →
        s.insertAt position block = .error (.positionOutOfRange position s.length)
          ∧ (∀ d : Draft, d.body.code = s → (Draft.insert position block).run.run d
            = (.error (.positionOutOfRange position s.length), d))
          ∧ ∀ (m : Module) (i : MethodId) (body : Body),
            (m.method? i).bind (·.body) = some body → body.code = s →
              m.editBody i none (.position position) block
                = (.error (.positionOutOfRange position s.length), m)) := by
  constructor
  · intro s edits front hdescending hfirst
    have hall : s.insertAll edits = .ok (edits.map fun e => e.position + e.block.length,
        s.interleave (blocksOf edits)) := by
      -- code without any blocks, into which the edits put one after the other
      have hrun : (s.interleave fun _ => []).insertAll edits = _ :=
        insertAll_interleave hdescending (fun _ _ _ _ => rfl) (position_le_of_descending hdescending hfirst)
      simpa only [interleave_of_empty, List.append_nil] using hrun
    refine ⟨_, hall, interleave_eq_flatMap _ s, rfl, ?_⟩
    rintro d rfl
    exact Steps.bind_ok.mpr ⟨(), _, Draft.insertions_run hall, rfl⟩
  · intro s position block hbeyond
    refine ⟨insertAt_eq_error block hbeyond, ?_, ?_⟩
    · rintro d rfl
      exact d.insert_beyond block hbeyond
    · rintro m i body hbody rfl
      exact Module.editBody_beyond block hbody hbeyond

/-! ## Edits of three lines -/

namespace Lines

def line (n : UInt32) : Instruction := ⟨.written n, .nop⟩

def code : Stream := [line 1, line 2, line 3]

/-- Behind the last line, twice in front of the second one, and in front of the first one. -/
def edits : List Insertion := [⟨3, [line 4]⟩, ⟨1, [line 5, line 6]⟩, ⟨1, [line 7]⟩, ⟨0, [line 8]⟩]

def run : Method where
  token := ⟨0⟩
  name := "Run"
  access := .publicAccess
  modifiers := .hideBySig
  params := []
  returns := none
  body := some (.ofCode code)

def module : Module where
  name := "Lines"
  methods := #[some run]

end Lines

/-- Of two edits at one position the last one comes first, and there is no position behind the end. -/
theorem Stream.insertions_descend_lines :
    (∃ edited : Stream, Lines.code.insertAll Lines.edits = .ok ([4, 3, 2, 1], edited)
        ∧ edited = [8, 1, 7, 5, 6, 2, 3, 4].map Lines.line
        ∧ edited.prepend [Lines.line 9] = (1, [9, 8, 1, 7, 5, 6, 2, 3, 4].map Lines.line))
      ∧ Lines.module.editBody ⟨0⟩ none (.position 4) [Lines.line 9]
        = (.error (.positionOutOfRange 4 3), Lines.module) := by
  obtain ⟨hedits, hbeyond⟩ := Stream.insertions_descend
  have hdescending : Lines.edits.Pairwise fun e e' => e'.position ≤ e.position := by decide
  have hfirst : ∀ e, Lines.edits.head? = some e → e.position ≤ Lines.code.length := by
    intro e he
    obtain rfl := Option.some.inj he
    decide
  obtain ⟨edited, hall, hedited, hprepend, -⟩ :=
    hedits Lines.code Lines.edits [Lines.line 9] hdescending hfirst
  have hlines : edited = [8, 1, 7, 5, 6, 2, 3, 4].map Lines.line := hedited.trans (by decide)
  refine ⟨⟨edited, hall, hlines, ?_⟩, ?_⟩
  · rw [hprepend, hlines]
    rfl
  · obtain ⟨-, -, hmodule⟩ := hbeyond Lines.code 4 [Lines.line 9] (by decide)
    exact hmodule Lines.module ⟨0⟩ (.ofCode Lines.code) rfl rfl

end SetterLoom
