import SetterLoom.Proofs.Machine.Telling

/-!
# What a body gets to

A run of a body that returns passes through positions, in frames and machines that the steps before
determine. Where no branch goes to the instructions of a piece of code, a run that gets behind the piece
has run it from its first instruction.

* `Ends.returns`, `Ends.after`: a run that returns, cut at a position it gets to.
* `Reaches.ran`: straight code in front of a position was run.
* `Reaches.passes`, `Reaches.skips`: code that may be skipped by a branch to its end.
* `Reaches.entered`: the code in front of a body is run once, at the start.
-/

namespace SetterLoom
set_option autoImplicit false

namespace Stream

/-- The code has the block at the position. -/
def Holds (code : Stream) (x : Nat) (block : List Instruction) : Prop :=
  ∀ k, k < block.length → code[x + k]? = block[k]?

variable {code : Stream} {x : Nat} {i : Instruction} {block rest : List Instruction}

theorem Holds.head (h : code.Holds x (i :: rest)) : code[x]? = some i := h 0 (Nat.succ_pos _)

theorem Holds.tail (h : code.Holds x (i :: rest)) : code.Holds (x + 1) rest := by
  intro k hk
  have hnext := h (k + 1) (Nat.succ_lt_succ hk)
  rw [List.getElem?_cons_succ] at hnext
  rw [← hnext]
  congr 1
  omega

theorem Holds.left (h : code.Holds x (block ++ rest)) : code.Holds x block := by
  intro k hk
  rw [h k (by simp only [List.length_append]; omega), List.getElem?_append_left hk]

theorem Holds.right (h : code.Holds x (block ++ rest)) : code.Holds (x + block.length) rest := by
  intro k hk
  rw [Nat.add_assoc, h (block.length + k) (by simp only [List.length_append]; omega),
    List.getElem?_append_right (Nat.le_add_right _ _), Nat.add_sub_cancel_left]

/-- No branch of the code goes to the label. -/
def Untargeted (code : Stream) (l : Label) : Prop :=
  ∀ i ∈ code, i.op.target? = some l → i.op.Straight

end Stream

namespace Site

variable {c : Site} {call : Call} {code : Stream} {p q : Nat} {f g h : Frame} {s t u : Machine}
  {v : Value} {op : Op} {ops : List Op} {way way' : Step}

theorem Does.unique (hdoes : c.Does call op f s way t) (hdoes' : c.Does call op f s way' u) :
    way' = way ∧ u = t := by
  obtain ⟨hway, ht⟩ := Prod.mk.inj (hdoes'.2.symm.trans hdoes.2)
  exact ⟨Except.ok.inj hway, ht⟩

/-- A run of the code from `p` gets to a position. -/
inductive Reaches (c : Site) (call : Call) (code : Stream) (p : Nat) (f : Frame) (s : Machine) :
    Nat → Frame → Machine → Prop
  | start : Reaches c call code p f s p f s
  | next {q : Nat} {i : Instruction} {g h : Frame} {t u : Machine}
    (hreach : Reaches c call code p f s q g t) (hi : code[q]? = some i)
    (hdoes : c.Does call i.op g t (.next h) u) : Reaches c call code p f s (q + 1) h u
  | jump {q r : Nat} {i : Instruction} {l : Label} {g h : Frame} {t u : Machine}
    (hreach : Reaches c call code p f s q g t) (hi : code[q]? = some i)
    (hdoes : c.Does call i.op g t (.jump l h) u) (hr : code.lastPosition? l = some r) :
    Reaches c call code p f s r h u

namespace Reaches

theorem trans {r : Nat} (hreach : c.Reaches call code p f s q g t)
    (hrest : c.Reaches call code q g t r h u) : c.Reaches call code p f s r h u := by
  induction hrest with
  | start => exact hreach
  | next _ hi hdoes ih => exact .next ih hi hdoes
  | jump _ hi hdoes hr ih => exact .jump ih hi hdoes hr

theorem kept (hreach : c.Reaches call code p f s q g t) : f.Kept g := by
  induction hreach with
  | start => exact ⟨rfl, rfl⟩
  | next _ _ hdoes ih => exact ih.trans hdoes.kept_of_next
  | jump _ _ hdoes _ ih => exact ih.trans hdoes.kept_of_jump

theorem later {m : Module} {d : Method} {bound : Nat}
    (hreach : (⟨m, d⟩ : Site).Reaches (Action.invokeAt m bound) code p f s q g t) :
    s.Later t ∧ t.depth = s.depth := by
  induction hreach with
  | start => exact ⟨.refl s, rfl⟩
  | next _ _ hdoes ih | jump _ _ hdoes _ ih =>
    obtain ⟨hlater, hdepth, -⟩ := later_does hdoes
    exact ⟨ih.1.trans hlater, hdepth.trans ih.2⟩

theorem receiver {m : Module} {d : Method} {bound : Nat} {r : HeapRef} {type : Token}
    {fields : TokenMap Value}
    (hreach : (⟨m, d⟩ : Site).Reaches (Action.invokeAt m bound) code p f s q g t)
    (hthis : f.arguments[0]? = some (.ref r)) (hr : s.heap.get? r = some (.object type fields)) :
    g.arguments[0]? = some (.ref r) ∧ t.hooks = s.hooks
      ∧ ∃ fields', t.heap.get? r = some (.object type fields') := by
  obtain ⟨hlater, -⟩ := hreach.later
  exact ⟨hreach.kept.arguments ▸ hthis, hlater.hooks, hlater.object hr⟩

theorem of_runs {block : List Instruction} (hruns : c.Runs call (block.map (·.op)) f s g t) {x : Nat}
    (hholds : code.Holds x block) : c.Reaches call code x f s (x + block.length) g t := by
  induction block generalizing x f s with
  | nil =>
    obtain ⟨rfl, rfl⟩ := runs_nil.mp hruns
    exact .start
  | cons i rest ih =>
    obtain ⟨h, u, hdoes, hrest⟩ := runs_cons.mp hruns
    have hlength : x + (i :: rest).length = x + 1 + rest.length := by
      rw [List.length_cons]
      omega
    rw [hlength]
    exact (Reaches.next .start hholds.head hdoes).trans (ih hrest hholds.tail)

theorem head (hreach : c.Reaches call code p f s q g t) :
    (q = p ∧ g = f ∧ t = s)
      ∨ ∃ i, code[p]? = some i
        ∧ ((∃ h u, c.Does call i.op f s (.next h) u ∧ c.Reaches call code (p + 1) h u q g t)
          ∨ ∃ l r h u, c.Does call i.op f s (.jump l h) u ∧ code.lastPosition? l = some r
            ∧ c.Reaches call code r h u q g t) := by
  induction hreach with
  | start => exact .inl ⟨rfl, rfl, rfl⟩
  | next _ hi hdoes ih =>
    rcases ih with ⟨rfl, rfl, rfl⟩ | ⟨j, hj, ⟨h, u, hfirst, hrest⟩ | ⟨l, r, h, u, hfirst, hr, hrest⟩⟩
    · exact .inr ⟨_, hi, .inl ⟨_, _, hdoes, .start⟩⟩
    · exact .inr ⟨j, hj, .inl ⟨h, u, hfirst, .next hrest hi hdoes⟩⟩
    · exact .inr ⟨j, hj, .inr ⟨l, r, h, u, hfirst, hr, .next hrest hi hdoes⟩⟩
  | jump _ hi hdoes hq ih =>
    rcases ih with ⟨rfl, rfl, rfl⟩ | ⟨j, hj, ⟨h, u, hfirst, hrest⟩ | ⟨l, r, h, u, hfirst, hr, hrest⟩⟩
    · exact .inr ⟨_, hi, .inr ⟨_, _, _, _, hdoes, hq, .start⟩⟩
    · exact .inr ⟨j, hj, .inl ⟨h, u, hfirst, .jump hrest hi hdoes hq⟩⟩
    · exact .inr ⟨j, hj, .inr ⟨l, r, h, u, hfirst, hr, .jump hrest hi hdoes hq⟩⟩

/-- A run from the start of straight code is still in it, or has run all of it. -/
theorem through {block : List Instruction} {x : Nat} (hreach : c.Reaches call code x f s q g t)
    (hholds : code.Holds x block) (hstraight : ∀ i ∈ block, i.op.Straight) :
    (x ≤ q ∧ q < x + block.length)
      ∨ ∃ h u, c.Runs call (block.map (·.op)) f s h u
        ∧ c.Reaches call code (x + block.length) h u q g t := by
  induction block generalizing x f s with
  | nil => exact .inr ⟨f, s, .nil f s, hreach⟩
  | cons i rest ih =>
    have hlength : x + (i :: rest).length = x + 1 + rest.length := by
      rw [List.length_cons]
      omega
    rw [hlength]
    -- at the start of the block, behind its first instruction, or behind a
    -- branch, which no straight instruction takes
    rcases hreach.head with ⟨rfl, -, -⟩ | ⟨j, hj, ⟨h, u, hdoes, hrest⟩ | ⟨l, r, h, u, hdoes, -, -⟩⟩
    · exact .inl ⟨by omega, by omega⟩
    · obtain rfl := Option.some.inj (hj.symm.trans hholds.head)
      rcases ih hrest hholds.tail (fun i hi => hstraight i (List.mem_cons_of_mem _ hi)) with
        ⟨hle, hlt⟩ | ⟨k, y, hruns, hbehind⟩
      · exact .inl ⟨by omega, hlt⟩
      · exact .inr ⟨k, y, .cons hdoes hruns, hbehind⟩
    · obtain rfl := Option.some.inj (hj.symm.trans hholds.head)
      obtain ⟨_, hway, -⟩ := hdoes.straight (hstraight _ List.mem_cons_self)
      cases hway

end Reaches

/-! ## Runs that return -/

theorem Ends.returns (hends : c.Ends call code idle p f s v t) :
    ∃ q i g u, c.Reaches call code p f s q g u ∧ code[q]? = some i
      ∧ c.Does call i.op g u (.done v) t := by
  induction hends with
  | done hi hdoes => exact ⟨_, _, _, _, .start, hi, hdoes⟩
  | next hi hdoes hact _ ih =>
    obtain ⟨rfl, rfl⟩ := hact
    obtain ⟨q, j, g, u, hreach, hj, hdone⟩ := ih
    exact ⟨q, j, g, u, (Reaches.next .start hi hdoes).trans hreach, hj, hdone⟩
  | jump hi hdoes hq _ ih =>
    obtain ⟨q, j, g, u, hreach, hj, hdone⟩ := ih
    exact ⟨q, j, g, u, (Reaches.jump .start hi hdoes hq).trans hreach, hj, hdone⟩

theorem Ends.after (hends : c.Ends call code idle p f s v t)
    (hreach : c.Reaches call code p f s q g u) : c.Ends call code idle q g u v t := by
  -- a machine does one thing at a time, so the run that returns takes each step of the other one
  induction hreach with
  | start => exact hends
  | next _ hi hdoes ih =>
    cases ih with
    | done hi' hdoes' =>
      obtain rfl := Option.some.inj (hi.symm.trans hi')
      cases (hdoes.unique hdoes').1
    | next hi' hdoes' hact hrest =>
      obtain rfl := Option.some.inj (hi.symm.trans hi')
      obtain ⟨hway, rfl⟩ := hdoes.unique hdoes'
      cases hway
      obtain ⟨rfl, rfl⟩ := hact
      exact hrest
    | jump hi' hdoes' =>
      obtain rfl := Option.some.inj (hi.symm.trans hi')
      cases (hdoes.unique hdoes').1
  | jump _ hi hdoes hr ih =>
    cases ih with
    | done hi' hdoes' =>
      obtain rfl := Option.some.inj (hi.symm.trans hi')
      cases (hdoes.unique hdoes').1
    | next hi' hdoes' =>
      obtain rfl := Option.some.inj (hi.symm.trans hi')
      cases (hdoes.unique hdoes').1
    | jump hi' hdoes' hr' hrest =>
      obtain rfl := Option.some.inj (hi.symm.trans hi')
      obtain ⟨hway, rfl⟩ := hdoes.unique hdoes'
      cases hway
      obtain rfl := Option.some.inj (hr.symm.trans hr')
      exact hrest

theorem FallsOnto.reaches (hfalls : c.FallsOnto call code p f s q g t) :
    ∃ r i h u, q = r + 1 ∧ c.Reaches call code p f s r h u ∧ code[r]? = some i
      ∧ c.Does call i.op h u (.next g) t := by
  induction hfalls with
  | here hi hdoes => exact ⟨_, _, _, _, rfl, .start, hi, hdoes⟩
  | next hi hdoes _ ih =>
    obtain ⟨r, j, h, u, hr, hreach, hj, hlast⟩ := ih
    exact ⟨r, j, h, u, hr, (Reaches.next .start hi hdoes).trans hreach, hj, hlast⟩
  | jump hi hdoes hp _ ih =>
    obtain ⟨r, j, h, u, hr, hreach, hj, hlast⟩ := ih
    exact ⟨r, j, h, u, hr, (Reaches.jump .start hi hdoes hp).trans hreach, hj, hlast⟩

theorem Ends.runs {block : List Instruction} {x : Nat} (hends : c.Ends call code idle x f s v t)
    (hholds : code.Holds x block) (hstraight : ∀ i ∈ block, i.op.Straight) :
    ∃ g u, c.Runs call (block.map (·.op)) f s g u
      ∧ c.Ends call code idle (x + block.length) g u v t := by
  have hops : ∀ k, k < (block.map (·.op)).length →
      (code[x + k]?).map (·.op) = (block.map (·.op))[k]? := by
    intro k hk
    rw [List.length_map] at hk
    rw [hholds k hk, List.getElem?_map]
  have hruns := runs_of_ends hops (by simpa using hstraight) hends
  rwa [List.length_map] at hruns

/-! ## Code that no branch goes into -/

theorem Reaches.label_of_jump {r : Nat} {i : Instruction} {l : Label} (hi : code[q]? = some i)
    (hdoes : c.Does call i.op g t (.jump l h) u) (hr : code.lastPosition? l = some r) :
    ∃ j, code[r]? = some j ∧ j.label = l ∧ ¬ code.Untargeted j.label := by
  obtain ⟨⟨j, hj, rfl⟩, -⟩ := Stream.lastPosition?_eq_some.mp hr
  refine ⟨j, hj, rfl, fun hnone => ?_⟩
  obtain ⟨_, hway, -⟩ := hdoes.straight (hnone i (List.mem_of_getElem? hi) hdoes.target_of_jump)
  cases hway

/-- An instruction that no branch goes to is reached from the one in front of it. -/
theorem Reaches.fell {x : Nat} (hreach : c.Reaches call code p f s (x + 1) g t) (hp : p ≤ x)
    (hlabel : ∀ j, code[x + 1]? = some j → code.Untargeted j.label) :
    ∃ i h u, c.Reaches call code p f s x h u ∧ code[x]? = some i
      ∧ c.Does call i.op h u (.next g) t := by
  generalize hy : x + 1 = y at hreach
  cases hreach with
  | start => omega
  | @next r i h _ u _ hreach hi hdoes =>
    obtain rfl : r = x := by omega
    exact ⟨i, h, u, hreach, hi, hdoes⟩
  | jump _ hi hdoes hr =>
    obtain ⟨j, hj, -, htarget⟩ := label_of_jump hi hdoes hr
    rw [← hy] at hj
    exact absurd (hlabel j hj) htarget

/-- Code that no branch goes into was run when a run is behind it. -/
theorem Reaches.ran {block : List Instruction} {x : Nat}
    (hreach : c.Reaches call code p f s (x + block.length) g t) (hp : p ≤ x)
    (hholds : code.Holds x block) (hinside : ∀ j ∈ block, code.Untargeted j.label)
    (hbehind : ∀ j, code[x + block.length]? = some j → code.Untargeted j.label) :
    ∃ h u, c.Reaches call code p f s x h u ∧ c.Runs call (block.map (·.op)) h u g t := by
  -- by induction from the end of the block: control falls onto each instruction
  -- from the one in front, as no branch leads there
  induction block generalizing x with
  | nil => exact ⟨g, t, hreach, .nil g t⟩
  | cons i rest ih =>
    have hlength : x + (i :: rest).length = x + 1 + rest.length := by
      rw [List.length_cons]
      omega
    rw [hlength] at hreach hbehind
    obtain ⟨h, u, hmiddle, hruns⟩ := ih hreach (by omega) hholds.tail
      (fun j hj => hinside j (List.mem_cons_of_mem _ hj)) hbehind
    have hlabel : ∀ j, code[x + 1]? = some j → code.Untargeted j.label := by
      intro j hj
      cases rest with
      | nil => exact hbehind j hj
      | cons r rest =>
        obtain rfl := Option.some.inj (hj.symm.trans hholds.tail.head)
        exact hinside j (by simp)
    obtain ⟨i', k, y, hfirst, hi, hdoes⟩ := hmiddle.fell hp hlabel
    obtain rfl := Option.some.inj (hi.symm.trans hholds.head)
    exact ⟨k, y, hfirst, .cons hdoes hruns⟩

/-! ## Code that may be skipped -/

/-- A run of code that a branch behind the test goes past, to the `nop` at its end. -/
inductive Skips (c : Site) (call : Call) (test : List Op) (last : Label) (inner : List Op) (f : Frame)
    (s : Machine) (g : Frame) (u : Machine) : Prop
  | past {h k : Frame} {t x : Machine} (htest : c.Runs call test f s h t)
    (hbranch : c.Does call (.branch .brtrue last) h t (.jump last k) x)
    (hnop : c.Does call .nop k x (.next g) u)
  | through {h k n : Frame} {t x y : Machine} (htest : c.Runs call test f s h t)
    (hbranch : c.Does call (.branch .brtrue last) h t (.next k) x)
    (hinner : c.Runs call inner k x n y) (hnop : c.Does call .nop n y (.next g) u)

section Skips

variable {x : Nat} {test inner : List Instruction} {branch : Instruction} {last : Label}
  (hholds : code.Holds x (test ++ branch :: inner ++ [⟨last, .nop⟩]))
  (hbranch : branch.op = .branch .brtrue last)
include hholds hbranch

/-- A run from the start of code that may be skipped is still in it, or has passed through it one way or
the other. -/
theorem Reaches.passes (hreach : c.Reaches call code x f s q g t)
    (hlast : code.lastPosition? last = some (x + (test ++ branch :: inner).length))
    (htest : ∀ i ∈ test, i.op.Straight) (hinner : ∀ i ∈ inner, i.op.Straight) :
    (x ≤ q ∧ q < x + (test ++ branch :: inner).length + 1)
      ∨ ∃ h u, c.Skips call (test.map (·.op)) last (inner.map (·.op)) f s h u
        ∧ c.Reaches call code (x + (test ++ branch :: inner).length + 1) h u q g t := by
  have hlength : (test ++ branch :: inner).length = test.length + 1 + inner.length := by
    simp only [List.length_append, List.length_cons]
    omega
  have hstraight : ∀ i ∈ [(⟨last, .nop⟩ : Instruction)], i.op.Straight := by
    simp [Op.Straight, Op.nop]
  -- at the `nop` both ways meet
  have hpast : ∀ {k y}, c.Reaches call code (x + (test ++ branch :: inner).length) k y q g t →
      (x ≤ q ∧ q < x + (test ++ branch :: inner).length + 1)
        ∨ ∃ h u, c.Does call .nop k y (.next h) u
          ∧ c.Reaches call code (x + (test ++ branch :: inner).length + 1) h u q g t := by
    intro k y hnop
    rcases hnop.through hholds.right hstraight with ⟨hle, hlt⟩ | ⟨h, u, hruns, hrest⟩
    · exact .inl ⟨by omega, hlt⟩
    · obtain ⟨h', u', hdoes, hnil⟩ := runs_cons.mp hruns
      obtain ⟨rfl, rfl⟩ := runs_nil.mp hnil
      exact .inr ⟨h, u, hdoes, hrest⟩
  have hbehind := hholds.left.right
  rcases hreach.through hholds.left.left htest with ⟨hle, hlt⟩ | ⟨h, y, htested, hrest⟩
  · exact .inl ⟨hle, by omega⟩
  rcases hrest.head with ⟨rfl, -, -⟩ | ⟨i, hi, ⟨k, z, hdoes, hrest⟩ | ⟨l, r, k, z, hdoes, hr, hrest⟩⟩
  · exact .inl ⟨by omega, by omega⟩
  · obtain rfl := Option.some.inj (hbehind.head.symm.trans hi)
    rcases hrest.through hbehind.tail hinner with ⟨hle, hlt⟩ | ⟨n, z', hinnerRuns, hnop⟩
    · exact .inl ⟨by omega, by omega⟩
    · have hplace : x + test.length + 1 + inner.length = x + (test ++ branch :: inner).length := by
        omega
      rw [hplace] at hnop
      rcases hpast hnop with hin | ⟨h', u, hdoes', hrest'⟩
      · exact .inl hin
      · exact .inr ⟨h', u, .through htested (hbranch ▸ hdoes) hinnerRuns hdoes', hrest'⟩
  · obtain rfl := Option.some.inj (hbehind.head.symm.trans hi)
    have htarget := hdoes.target_of_jump
    rw [hbranch] at htarget
    obtain rfl := Option.some.inj htarget
    obtain rfl := Option.some.inj (hlast.symm.trans hr)
    rcases hpast hrest with hin | ⟨h', u, hdoes', hrest'⟩
    · exact .inl hin
    · exact .inr ⟨h', u, .past htested (hbranch ▸ hdoes) hdoes', hrest'⟩

/-- A run that returns from the start of code that may be skipped passes through it one way or the
other. -/
theorem Ends.skips (hends : c.Ends call code idle x f s v t)
    (hlast : code.lastPosition? last = some (x + (test ++ branch :: inner).length))
    (htest : ∀ i ∈ test, i.op.Straight) (hinner : ∀ i ∈ inner, i.op.Straight) :
    ∃ g u, c.Skips call (test.map (·.op)) last (inner.map (·.op)) f s g u
      ∧ c.Ends call code idle (x + (test ++ branch :: inner).length + 1) g u v t := by
  have hstraight : ∀ i ∈ [(⟨last, .nop⟩ : Instruction)], i.op.Straight := by
    simp [Op.Straight, Op.nop]
  -- at the `nop` both ways meet
  have hpast : ∀ {k y}, c.Ends call code idle (x + (test ++ branch :: inner).length) k y v t →
      ∃ g u, c.Does call .nop k y (.next g) u
        ∧ c.Ends call code idle (x + (test ++ branch :: inner).length + 1) g u v t := by
    intro k y hnop
    obtain ⟨g, u, hruns, hrest⟩ := hnop.runs hholds.right hstraight
    obtain ⟨g', u', hdoes, hnil⟩ := runs_cons.mp hruns
    obtain ⟨rfl, rfl⟩ := runs_nil.mp hnil
    exact ⟨g, u, hdoes, hrest⟩
  have hbehind := hholds.left.right
  obtain ⟨h, y, htested, hrest⟩ := hends.runs hholds.left.left htest
  cases hrest with
  | done hi hdoes =>
    obtain rfl := Option.some.inj (hbehind.head.symm.trans hi)
    rcases hdoes.way with ⟨_, hway, -⟩ | ⟨_, _, hway, -⟩ | ⟨_, -, hret⟩
    · cases hway
    · cases hway
    · rw [hbranch] at hret
      cases hret
  | next hi hdoes hact hrest =>
    obtain rfl := Option.some.inj (hbehind.head.symm.trans hi)
    obtain ⟨rfl, rfl⟩ := hact
    obtain ⟨n, z, hinnerRuns, hnop⟩ := hrest.runs hbehind.tail hinner
    have hplace : x + test.length + 1 + inner.length = x + (test ++ branch :: inner).length := by
      simp only [List.length_append, List.length_cons]
      omega
    rw [hplace] at hnop
    obtain ⟨g, u, hdoes', hbeyond⟩ := hpast hnop
    exact ⟨g, u, .through htested (hbranch ▸ hdoes) hinnerRuns hdoes', hbeyond⟩
  | jump hi hdoes hq hrest =>
    obtain rfl := Option.some.inj (hbehind.head.symm.trans hi)
    have htarget := hdoes.target_of_jump
    rw [hbranch] at htarget
    obtain rfl := Option.some.inj htarget
    obtain rfl := Option.some.inj (hlast.symm.trans hq)
    obtain ⟨g, u, hdoes', hbeyond⟩ := hpast hrest
    exact ⟨g, u, .past htested (hbranch ▸ hdoes) hdoes', hbeyond⟩

/-- A run that is at the `nop` has passed through the code in front of it, if only its own branch goes to
the `nop` and none to the other instructions. -/
theorem Reaches.skips (hreach : c.Reaches call code p f s (x + (test ++ branch :: inner).length) g t)
    (hp : p ≤ x) (hdoes : c.Does call .nop g t (.next h) u)
    (hinside : ∀ j ∈ test ++ branch :: inner, code.Untargeted j.label)
    (honly : ∀ q i, code[q]? = some i → i.op.target? = some last → ¬ i.op.Straight →
      q = x + test.length) :
    ∃ k y, c.Reaches call code p f s x k y
      ∧ c.Skips call (test.map (·.op)) last (inner.map (·.op)) k y h u := by
  have hbehind := hholds.left.right
  have hlength : x + (test ++ branch :: inner).length = x + test.length + inner.length + 1 := by
    simp only [List.length_append, List.length_cons]
    omega
  -- the test was run when a run is at the branch
  have htested : ∀ {g t}, c.Reaches call code p f s (x + test.length) g t →
      ∃ k y, c.Reaches call code p f s x k y ∧ c.Runs call (test.map (·.op)) k y g t := by
    intro g t hat
    refine hat.ran hp hholds.left.left (fun j hj => hinside j (by simp [hj])) fun j hj => ?_
    obtain rfl := Option.some.inj (hj.symm.trans hbehind.head)
    exact hinside j (by simp)
  rw [hlength] at hreach
  generalize hy : x + test.length + inner.length + 1 = y at hreach
  cases hreach with
  | start => omega
  | @jump q _ i l _ _ w _ hat hi hjump hr =>
    obtain ⟨j, hj, rfl, -⟩ := label_of_jump hi hjump hr
    have hnop : code[y]? = some ⟨last, .nop⟩ := by
      rw [← hy, ← hlength]
      exact hholds.right.head
    obtain rfl := Option.some.inj (hj.symm.trans hnop)
    have hbends : ¬ i.op.Straight := fun hstraight => by
      obtain ⟨_, hway, -⟩ := hjump.straight hstraight
      cases hway
    obtain rfl := honly q i hi hjump.target_of_jump hbends
    obtain rfl := Option.some.inj (hbehind.head.symm.trans hi)
    obtain ⟨k, y, hstart, hruns⟩ := htested hat
    exact ⟨k, y, hstart, .past hruns (hbranch ▸ hjump) hdoes⟩
  | @next q i n _ z _ hat hi hnext =>
    obtain rfl : q = x + test.length + inner.length := by omega
    rcases List.eq_nil_or_concat inner with rfl | ⟨init, final, hsplit⟩
    · obtain rfl := Option.some.inj (hbehind.head.symm.trans hi)
      obtain ⟨k, y, hstart, hruns⟩ := htested hat
      exact ⟨k, y, hstart, .through hruns (hbranch ▸ hnext) (.nil _ _) hdoes⟩
    · rw [List.concat_eq_append] at hsplit
      subst hsplit
      have hfinal : code[x + test.length + 1 + init.length]? = some final := hbehind.tail.right.head
      have hplace : x + test.length + (init ++ [final]).length = x + test.length + 1 + init.length := by
        simp only [List.length_append, List.length_singleton]
        omega
      rw [hplace] at hat hi
      obtain rfl := Option.some.inj (hfinal.symm.trans hi)
      obtain ⟨k, y, hfirst, hinit⟩ := hat.ran (by omega) hbehind.tail.left
        (fun j hj => hinside j (by simp [hj])) fun j hj => by
          obtain rfl := Option.some.inj (hj.symm.trans hfinal)
          exact hinside j (by simp)
      obtain ⟨b, k', y', hat', hb, hnext'⟩ := hfirst.fell (by omega) fun j hj => by
        have hmem : j ∈ init ++ [final] := by
          have hin := hbehind.tail 0 (by simp)
          rw [Nat.add_zero, hj] at hin
          exact List.mem_of_getElem? hin.symm
        exact hinside j (List.mem_append_right _ (List.mem_cons_of_mem _ hmem))
      obtain rfl := Option.some.inj (hbehind.head.symm.trans hb)
      obtain ⟨k, y, hstart, hruns⟩ := htested hat'
      refine ⟨k, y, hstart, .through hruns (hbranch ▸ hnext') ?_ hdoes⟩
      rw [List.map_append]
      exact hinit.append (.cons hnext (.nil _ _))

end Skips

/-! ## Code in front of a body -/

section Front

variable {front rest : List Instruction} (hcode : code = front ++ rest)
  (hlabel : ∀ j ∈ front, code.Untargeted j.label)
include hcode hlabel

private theorem behind_front_of_jump {r : Nat} {i : Instruction} {l : Label} (hi : code[q]? = some i)
    (hdoes : c.Does call i.op g t (.jump l h) u) (hr : code.lastPosition? l = some r) :
    front.length ≤ r := by
  obtain ⟨j, hj, -, htarget⟩ := Reaches.label_of_jump hi hdoes hr
  refine Nat.le_of_not_lt fun hlt => htarget (hlabel j ?_)
  rw [hcode, List.getElem?_append_left hlt] at hj
  exact List.mem_of_getElem? hj

/-- Code in front that no branch goes into is run once, at the start. -/
theorem Reaches.entered (hstraight : ∀ i ∈ front, i.op.Straight)
    (hreach : c.Reaches call code 0 f s q g t) :
    (q < front.length ∧ c.Runs call ((front.take q).map (·.op)) f s g t)
      ∨ front.length ≤ q ∧ ∃ h u, c.Runs call (front.map (·.op)) f s h u
        ∧ c.Reaches call code front.length h u q g t := by
  -- the invariant is that the run is in the code in front and has run it
  -- so far, or is behind it and ran all of it
  induction hreach with
  | start =>
    by_cases hfront : front = []
    · subst hfront
      exact .inr ⟨Nat.le_refl _, f, s, .nil f s, .start⟩
    · exact .inl ⟨List.length_pos_iff.mpr hfront, .nil f s⟩
  | @next q i g h t u _ hi hdoes ih =>
    rcases ih with ⟨hlt, hruns⟩ | ⟨hle, k, y, hruns, hrest⟩
    · have hq : front[q]? = some i := by rwa [hcode, List.getElem?_append_left hlt] at hi
      have htake : front.take (q + 1) = front.take q ++ [i] := by rw [List.take_add_one, hq]; rfl
      have hruns' : c.Runs call ((front.take (q + 1)).map (·.op)) f s h u := by
        rw [htake, List.map_append]
        exact hruns.append (.cons hdoes (.nil h u))
      by_cases hend : q + 1 = front.length
      · refine .inr ⟨Nat.le_of_eq hend.symm, h, u, ?_, hend ▸ .start⟩
        rwa [hend, List.take_length] at hruns'
      · exact .inl ⟨by omega, hruns'⟩
    · exact .inr ⟨by omega, k, y, hruns, .next hrest hi hdoes⟩
  | @jump q r i l g h t u _ hi hdoes hr ih =>
    -- in front there is nothing that branches, and behind it no label leads back
    rcases ih with ⟨hlt, -⟩ | ⟨-, k, y, hruns, hrest⟩
    · rw [hcode, List.getElem?_append_left hlt] at hi
      obtain ⟨_, hway, -⟩ := hdoes.straight (hstraight i (List.mem_of_getElem? hi))
      cases hway
    · exact .inr ⟨behind_front_of_jump hcode hlabel hi hdoes hr, k, y, hruns,
        .jump hrest hi hdoes hr⟩

/-- Behind the code in front, a slot that no instruction stores into keeps its value. -/
theorem Reaches.slot_kept (hreach : c.Reaches call code front.length f s q g t) {k : Nat}
    (hstores : ∀ i ∈ rest, ∀ n : UInt16, i.op = .stloc n → n.toNat ≠ k) :
    front.length ≤ q ∧ g.slots[k]? = f.slots[k]? := by
  have hkept : ∀ {q i g h}, front.length ≤ q → code[q]? = some i → Frame.After i.op g h →
      h.slots[k]? = g.slots[k]? := by
    intro q i g h hle hi hafter
    rw [hcode, List.getElem?_append_right hle] at hi
    rcases hafter.slots with hsame | ⟨n, v, hop, hset⟩
    · rw [hsame]
    · rw [hset, List.getElem?_set_ne (hstores i (List.mem_of_getElem? hi) n hop)]
  induction hreach with
  | start => exact ⟨Nat.le_refl _, rfl⟩
  | next _ hi hdoes ih =>
    exact ⟨by omega, (hkept ih.1 hi hdoes.after_of_next).trans ih.2⟩
  | jump _ hi hdoes hr ih =>
    exact ⟨behind_front_of_jump hcode hlabel hi hdoes hr,
      (hkept ih.1 hi hdoes.after_of_jump).trans ih.2⟩

end Front

end Site

end SetterLoom
