import SetterLoom.Proofs.Machine.Answered
import SetterLoom.Proofs.Machine.Closed
import SetterLoom.Proofs.Module.Lines

/-!
# Runs end within their budget

The machine's runs have no bounds of their own: bodies are run until they return, calls are nested as they
come. That they end is due to the two counters. Each instruction of a body is counted before it is run; each
body is run one level deeper; and between two calls that the machine answers one inside the other, the event
arguments are made, which takes an instruction. So the levels and the instructions that are left bound how
deep calls can be nested, and bodies end with the limit.

* `Action.nestedAt`, `Site.runOpen`: calls and bodies with what is beyond a bound left open.
* `Module.meter`: the counters as an upkeep.
* `Upkeep.agree_nestedAt`: calls do not depend on what is beyond their room.
* `Action.invoke_bounded`: a call ends, within the limit and on the level that it started on.
* `Action.endless_unanswered`: with the largest limit, the counter is full before the limit is exceeded.
-/

namespace SetterLoom
set_option autoImplicit false

/-- Whether the cause of an error is that an instruction was beyond the limit. -/
def Error.exceeds (limit : Nat) : Error → Bool
  | .emulation (.instructionLimit n _) => n == limit
  | .weave _ _ cause | .runtimeMember _ _ cause => cause.exceeds limit
  | _ => false

/-! ## What is beyond a bound -/

/-- Call a method, where calls that are nested deeper than a bound are left open. -/
def Action.nestedAt (m : Module) (beyond : Call) : Nat → Call
  | 0 => beyond
  | bound + 1 => fun i this arguments => invokeWith m (nestedAt m beyond bound) i this arguments

theorem Action.nestedAt_add (m : Module) (beyond : Call) (n k : Nat) :
    nestedAt m beyond (n + k) = nestedAt m (nestedAt m beyond k) n := by
  induction n with
  | zero => rw [Nat.zero_add, nestedAt]
  | succ n ih => rw [Nat.succ_add, nestedAt, nestedAt, ih]

theorem Action.nestedAt_fault (m : Module) (bound : Nat) :
    nestedAt m (fun i _ _ => fault (.callDepth (m.methodText i))) bound = invokeAt m bound := by
  induction bound with
  | zero => rfl
  | succ bound ih => rw [nestedAt, ih]; rfl

/-- Run code from a position, where what comes behind a number of instructions is left open. -/
def Site.runOpen (c : Site) (call : Call) (code : Stream) (behind : Nat → Frame → Action Value) :
    Nat → Nat → Frame → Machine → Except Error Value × Machine
  | 0, position, f, s => behind position f s
  | bound + 1, position, f, s =>
    match code[position]? with
    | none => (.error (.emulation (.pastTheEnd c.name)), s)
    | some i =>
      if s.limit ≤ s.executed then
        (.error (.emulation (s.exhausted c.name)),
          { s with executed := s.executed + 1 })
      else
        match c.step call i.op f { s with executed := s.executed + 1 } with
        | (.error e, s) => (.error e, s)
        | (.ok (.next f), s) => runOpen c call code behind bound (position + 1) f s
        | (.ok (.done v), s) => (.ok v, s)
        | (.ok (.jump l f), s) =>
          match code.lastPosition? l with
          | some position => runOpen c call code behind bound position f s
          | none => (.error (.emulation (.unknownLabel c.name)), s)

/-! ## The counters -/

namespace Machine

variable {s t u : Machine}

/-- The levels and the instructions that are left. -/
def room (s : Machine) : Nat := (maxDepth - s.depth) + (s.limit - s.executed)

/-- The next state is on the same level, and instructions were counted within the limit. -/
structure Counted (s t : Machine) : Prop where
  limit : t.limit = s.limit
  depth : t.depth = s.depth
  executed : s.executed ≤ t.executed
  within : t.executed ≤ max s.executed s.limit

theorem Counted.refl : s.Counted s := ⟨rfl, rfl, Nat.le_refl _, Nat.le_max_left _ _⟩

theorem Counted.trans (h : s.Counted t) (h' : t.Counted u) : s.Counted u := by
  obtain ⟨hlimit, hdepth, hexecuted, hwithin⟩ := h
  obtain ⟨hlimit', hdepth', hexecuted', hwithin'⟩ := h'
  exact ⟨by omega, by omega, by omega, by omega⟩

theorem Counted.room_le (h : s.Counted t) : t.room ≤ s.room := by
  obtain ⟨hlimit, hdepth, hexecuted, -⟩ := h
  unfold room
  omega

theorem Counted.room_lt (h : s.Counted t) (hlt : s.executed < t.executed) : t.room < s.room := by
  obtain ⟨hlimit, hdepth, -, hwithin⟩ := h
  unfold room
  omega

theorem Counted.room_nested (hdepth : s.depth < maxDepth) {x : Machine} (h : s.Counted x)
    (h' : ({ x with depth := x.depth + 1 } : Machine).Counted t) (hlt : x.executed < t.executed) :
    t.room + 2 ≤ s.room := by
  have hlt' := h'.room_lt hlt
  have hle := h.room_le
  have hlevel : ({ x with depth := x.depth + 1 } : Machine).room + 1 = x.room := by
    have := h.depth
    unfold room
    dsimp only
    omega
  omega

/-- What a failure leaves: only one that is due to the limit has counted beyond the limit, and only one
instruction. The counter is full only if the limit, or what was counted before, is the largest number. -/
structure Ended (s : Machine) (e : Error) (t : Machine) : Prop where
  depth : t.depth = s.depth
  within : t.executed ≤ max s.executed s.limit + 1
  exceeds : max s.executed s.limit < t.executed → e.exceeds s.limit = true ∨ e.overflows = true
  overflows : e.overflows = true → maxCount ≤ max s.executed s.limit

theorem Counted.ended {e : Error} (h : s.Counted t) (h' : t.Ended e u) : s.Ended e u := by
  obtain ⟨hlimit, hdepth, hexecuted, hwithin⟩ := h
  obtain ⟨hdepth', hwithin', hexceeds, hoverflows⟩ := h'
  refine ⟨by omega, by omega, fun hlt => ?_, fun he => ?_⟩
  · rw [← hlimit]
    exact hexceeds (by omega)
  · have hfull := hoverflows he
    omega

theorem Ended.same {e : Error} (he : e.overflows = false) : s.Ended e s :=
  ⟨rfl, by omega, fun hlt => absurd hlt (by omega), fun h => absurd h (by rw [he]; exact Bool.false_ne_true)⟩

theorem ended_exhausted {name : String} (hs : s.limit ≤ s.executed) :
    s.Ended (.emulation (s.exhausted name)) { s with executed := s.executed + 1 } := by
  have hmax : max s.executed s.limit = s.executed := Nat.max_eq_left hs
  unfold exhausted
  split
  · exact ⟨rfl, by dsimp only; omega, fun _ => .inl (beq_self_eq_true _), fun h => nomatch h⟩
  · rename_i hfull
    exact ⟨rfl, by dsimp only; omega, fun _ => .inr rfl, fun _ => by omega⟩

end Machine

/-- The counters of a machine that answers for the members of the runtime. -/
def Module.meter (m : Module) : Upkeep m where
  scope _ := .all
  le := Machine.Counted
  inv s := s.hooks = Machine.withRuntimeMembers.hooks
  failed := Machine.Ended
  Loads _ := True
  Handles _ := True
  hooks h := h
  refl _ := .refl
  trans := .trans
  executed h := h.executed
  grow _ := ⟨fun _ => id, fun _ => id⟩
  failed_of_le h h' := h.ended h'
  lookup _ _ _ := Scope.all_object _
  push h _ := ⟨⟨rfl, rfl, Nat.le_refl _, Nat.le_max_left _ _⟩, h, trivial⟩
  put h _ _ _ := ⟨⟨rfl, rfl, Nat.le_refl _, Nat.le_max_left _ _⟩, h⟩
  record h _ := ⟨⟨rfl, rfl, Nat.le_refl _, Nat.le_max_left _ _⟩, h⟩
  know h _ := ⟨⟨rfl, rfl, Nat.le_refl _, Nat.le_max_left _ _⟩, h⟩
  load h _ _ := ⟨⟨rfl, rfl, Nat.le_refl _, Nat.le_max_left _ _⟩, h, trivial⟩
  count h hlt := ⟨⟨rfl, rfl, Nat.le_succ _, by dsimp only; omega⟩, h⟩
  scope_depth _ _ := rfl
  inv_depth h := h
  nest h := ⟨h.limit, by rw [h.depth, Nat.add_sub_cancel], h.executed, h.within⟩
  failed_nest h := ⟨by rw [h.depth, Nat.add_sub_cancel], h.within, h.exceeds, h.overflows⟩
  fails _ _ := .same
  dangling _ _ _ := .same rfl
  unknown _ _ _ := .same rfl
  exceeds _ hle := Machine.ended_exhausted hle
  loads _ _ _ _ _ _ := trivial
  handles _ _ _ := trivial
  wraps h := ⟨h.depth, h.within, h.exceeds, h.overflows⟩

namespace Upkeep

variable {m : Module} {s : Machine} {beyond beyond' : Call}

/-- Making event arguments takes an instruction, and so makes room for one call less. -/
theorem meter_prepares {call call' : Call} {room : Nat} (hroom : s.room ≤ room)
    (hconstructors : ∀ t i this arguments, s.Counted t → m.meter.inv t → Unanswered m i →
      m.meter.Agree t (fun u _ => t.executed < u.executed) (call i this arguments)
        (call' i this arguments))
    (hhandlers : ∀ t i this arguments, m.meter.inv t → t.room < room →
      m.meter.Agree t (fun _ _ => True) (call i this arguments) (call' i this arguments)) :
    m.meter.Prepares s call call' := by
  intro t i v hle ht hi _
  unfold Action.construct
  refine (agree_constructedType ht i).bind fun s₁ owner hle₁ hs₁ _ => ?_
  obtain ⟨type, d⟩ := owner
  dsimp only
  split
  · exact agree_fault hs₁ rfl rfl
  · refine (agree_allocObject hs₁ d.token).bind fun s₂ object hle₂ hs₂ _ => ?_
    have hfar : s.Counted s₂ := (Machine.Counted.trans hle hle₁).trans hle₂
    refine (hconstructors s₂ i (some object) [v] hfar hs₂ hi.unanswered).bind
      fun s₃ _ hle₃ hs₃ hcounted => agree_pure hs₃ ⟨Scope.all_value _, ?_⟩
    intro u j this arguments _ hle₄ hu _ _
    have hlt : u.room < room := by
      have h₁ := hfar.room_le
      have h₂ := Machine.Counted.room_lt hle₃ hcounted
      have h₃ := Machine.Counted.room_le hle₄
      omega
    exact (hhandlers u j this arguments hu hlt).mono fun _ _ _ _ _ => Scope.all_value _

/-- A call does not depend on what calls would do that are nested deeper than the room is for. A constructor
needs room for one call less, since the machine does not answer for it. -/
theorem agree_nestedAt (beyond beyond' : Call) (n : Nat) (hs : m.meter.inv s) (i : MethodId)
    (this : Option Value) (arguments : List Value) :
    (s.room + 2 ≤ n → m.meter.Agree s (fun _ _ => True)
        (Action.nestedAt m beyond n i this arguments) (Action.nestedAt m beyond' n i this arguments))
      ∧ (s.room + 1 ≤ n → Unanswered m i → m.meter.Agree s (fun u _ => s.executed < u.executed)
        (Action.nestedAt m beyond n i this arguments) (Action.nestedAt m beyond' n i this arguments)) := by
  induction n generalizing s i this arguments with
  | zero => exact ⟨fun h => absurd h (Nat.not_succ_le_zero _), fun h => absurd h (Nat.not_succ_le_zero _)⟩
  | succ n ih =>
    -- what the call calls is one level deeper and at least one
    -- instruction later, which takes room for two
    have hwithin : s.room ≤ n → s.depth < maxDepth → ∀ u, m.meter.le s u → m.meter.inv u →
        m.meter.Within { u with depth := u.depth + 1 } (Action.nestedAt m beyond n)
          (Action.nestedAt m beyond' n) := by
      intro hroom hdepth u hle _ t hle' _ hlt x j this arguments hle'' hx _ _
      have hnested := Machine.Counted.room_nested hdepth hle hle' hlt
      have hlater := Machine.Counted.room_le hle''
      exact ((ih hx j this arguments).1 (by omega)).mono fun _ _ _ _ _ => Scope.all_value _
    refine ⟨fun hroom => ?_, fun hroom hi => ?_⟩
    · refine (agree_invokeWith hs (hwithin (by omega)) (fun _ _ => ?_)
        (fun v _ => Scope.all_value v) (fun v _ => Scope.all_value v)).mono fun _ _ _ _ _ => trivial
      -- the constructor runs in the room of the call itself, but the machine does not answer for it
      refine meter_prepares (Nat.le_refl _) (fun t j this arguments hle ht hj => ?_)
        fun t j this arguments ht hlt => (ih ht j this arguments).1 (by omega)
      have hlater := hle.room_le
      exact (ih ht j this arguments).2 (by omega) hj
    · refine (agree_invokeWith hs (hwithin (by omega)) (fun hraiser _ => ?_)
        (fun v _ => Scope.all_value v) (fun v _ => Scope.all_value v)).mono fun u v _ _ hv => hv.2 hi
      obtain ⟨d, hd, -, hhook⟩ := hraiser
      rw [hi d hd] at hhook
      cases hhook

/-- Calls do what calls do that are nested at most as deep as there is room for. -/
theorem agree_invoke (beyond : Call) {n : Nat} (hs : m.meter.inv s) (i : MethodId)
    (this : Option Value) (arguments : List Value) :
    (s.room + 2 ≤ n → m.meter.Agree s (fun _ _ => True)
        (Action.nestedAt m beyond n i this arguments) (Action.invoke m i this arguments))
      ∧ (s.room + 1 ≤ n → Unanswered m i → m.meter.Agree s (fun u _ => s.executed < u.executed)
        (Action.nestedAt m beyond n i this arguments) (Action.invoke m i this arguments)) := by
  have hdeep : s.room + 2 ≤ Action.nesting s := by
    unfold Machine.room Action.nesting
    omega
  -- both are cut at one depth, with something else beyond it
  have hcut : ∀ {k}, k ≤ n → k ≤ Action.nesting s → ∃ b b',
      Action.nestedAt m beyond n = Action.nestedAt m b k
        ∧ (Action.invoke m i this arguments).run.run s
          = (Action.nestedAt m b' k i this arguments).run.run s := by
    intro k hn hnesting
    obtain ⟨a, rfl⟩ := Nat.exists_eq_add_of_le hn
    obtain ⟨a', ha'⟩ := Nat.exists_eq_add_of_le hnesting
    refine ⟨Action.nestedAt m beyond a,
      Action.nestedAt m (fun i _ _ => Action.fault (.callDepth (m.methodText i))) a',
      Action.nestedAt_add m beyond k a, ?_⟩
    rw [Action.invoke_run, ← Action.nestedAt_fault, ha', Action.nestedAt_add]
  refine ⟨fun hn => ?_, fun hn hi => ?_⟩
  · obtain ⟨b, b', hb, hb'⟩ := hcut hn hdeep
    rw [hb]
    exact ((agree_nestedAt b b' _ hs i this arguments).1 (Nat.le_refl _)).of_later (m.meter.refl s) rfl hb'
  · obtain ⟨b, b', hb, hb'⟩ := hcut hn (by omega)
    rw [hb]
    exact ((agree_nestedAt b b' _ hs i this arguments).2 (Nat.le_refl _) hi).of_later (m.meter.refl s)
      rfl hb'

end Upkeep

/-! ## Nothing is cut off -/

namespace Action

variable {m : Module} {s : Machine}

theorem invoke_eq_invokeWith (hs : s.hooks = Machine.withRuntimeMembers.hooks) (i : MethodId)
    (this : Option Value) (arguments : List Value) :
    (invoke m i this arguments).run.run s = (invokeWith m (invoke m) i this arguments).run.run s := by
  have hinv : m.meter.inv s := hs
  -- calls nested as deep as there is room for, as one call that makes calls
  have hmade := ((Upkeep.agree_invoke (invoke m) hinv i this arguments).1 (Nat.le_refl _)).same
  rw [hmade, nestedAt]
  refine (Upkeep.agree_invokeWith hinv (fun hdepth u hle _ t hle' _ hlt x j this arguments hle'' hx _ _ => ?_)
    (fun _ _ => ?_) (fun v _ => Scope.all_value v) (fun v _ => Scope.all_value v)).same.symm
  · have hnested := Machine.Counted.room_nested hdepth hle hle' hlt
    have hlater := Machine.Counted.room_le hle''
    exact ((Upkeep.agree_invoke (invoke m) hx j this arguments).1 (by omega)).mono
      fun _ _ _ _ _ => Scope.all_value _
  · refine Upkeep.meter_prepares (Nat.le_refl _) (fun t j this arguments hle ht hj => ?_)
      fun t j this arguments ht hlt => (Upkeep.agree_invoke (invoke m) ht j this arguments).1 (by omega)
    have hlater := hle.room_le
    exact (Upkeep.agree_invoke (invoke m) ht j this arguments).2 (by omega) hj

end Action

namespace Site

variable {m : Module} {d : Method}

/-- Code is run to its end before the limit is used up, whatever would come then. -/
theorem runOpen_eq_runFrom {code : Stream} {behind : Nat → Frame → Action Value} {bound bound' p : Nat}
    {f : Frame} {s : Machine} (hs : s.hooks = Machine.withRuntimeMembers.hooks)
    (hbound : s.limit - s.executed < bound) (hbound' : s.limit - s.executed < bound') :
    (⟨m, d⟩ : Site).runOpen (Action.invoke m) code behind bound p f s
      = (⟨m, d⟩ : Site).runFrom (Action.invoke m) code bound' p f s := by
  induction bound generalizing bound' p f s with
  | zero => exact absurd hbound (Nat.not_lt_zero _)
  | succ bound ih =>
    obtain ⟨bound', rfl⟩ : ∃ b, bound' = b + 1 := ⟨bound' - 1, by omega⟩
    rw [runOpen, runFrom]
    cases hi : code[p]? with
    | none => rfl
    | some i =>
      dsimp only
      split
      · rfl
      · rename_i hlimit
        have hcounted : m.meter.inv { s with executed := s.executed + 1 } := hs
        have hframe : (m.meter.scope { s with executed := s.executed + 1 }).Frame f :=
          ⟨fun v _ => Scope.all_value v, fun v _ => Scope.all_value v, fun v _ => Scope.all_value v⟩
        have hloads : ∀ j, i.op.loaded? = some j → m.meter.Loads j := fun _ _ => trivial
        have hstep := (Upkeep.agree_step (d := d) hcounted hframe (Upkeep.calls_invoke _)
          hloads).outcome
        cases hresult : (⟨m, d⟩ : Site).step (Action.invoke m) i.op f
            { s with executed := s.executed + 1 } with
        | mk result u =>
          rw [show ((⟨m, d⟩ : Site).step (Action.invoke m) i.op f).run.run
            { s with executed := s.executed + 1 } = (result, u) from hresult] at hstep
          cases result with
          | error e => rfl
          | ok way =>
            -- the rest is run with more instructions counted
            obtain ⟨⟨hkept, -, hexecuted, -⟩, hu, -⟩ := hstep
            have hrest : ∀ {q g}, (⟨m, d⟩ : Site).runOpen (Action.invoke m) code behind bound q g u
                = (⟨m, d⟩ : Site).runFrom (Action.invoke m) code bound' q g u := by
              dsimp only at hkept hexecuted
              exact ih hu (by omega) (by omega)
            cases way with
            | next g => exact hrest
            | done v => rfl
            | jump l g =>
              dsimp only
              cases code.lastPosition? l with
              | none => rfl
              | some q => exact hrest

end Site

/-- The bounds of the definitions cut nothing off: walks along base types end before theirs and bodies
before theirs, and a call is made with calls of its own kind. -/
structure Module.Uncut (m : Module) : Prop where
  lines : ∀ (t : TypeId) (bound : Nat), m.types.size ≤ bound → m.lineUpTo bound t = m.line t
  bodies : ∀ (d : Method) (code : Stream) (behind : Nat → Frame → Action Value) (bound p : Nat) (f : Frame)
    (s : Machine), s.hooks = Machine.withRuntimeMembers.hooks → s.limit - s.executed < bound →
      (⟨m, d⟩ : Site).runOpen (Action.invoke m) code behind bound p f s
        = (⟨m, d⟩ : Site).runFrom (Action.invoke m) code (s.limit - s.executed + 1) p f s
  calls : ∀ (i : MethodId) (this : Option Value) (arguments : List Value) (s : Machine),
    s.hooks = Machine.withRuntimeMembers.hooks →
      (Action.invoke m i this arguments).run.run s
        = (Action.invokeWith m (Action.invoke m) i this arguments).run.run s

theorem Module.uncut {m : Module} (hacyclic : m.Acyclic) : m.Uncut where
  lines t _ hbound := lineUpTo_eq_line hacyclic hbound t
  bodies _ _ _ _ _ _ _ hs hbound := Site.runOpen_eq_runFrom hs hbound (Nat.lt_succ_self _)
  calls i this arguments _ hs := Action.invoke_eq_invokeWith hs i this arguments

theorem Upkeep.outcome_invoke {m : Module} {s : Machine} (hs : m.meter.inv s)
    (hcount : max s.executed s.limit < maxCount) (i : MethodId) (this : Option Value)
    (arguments : List Value) {result : Except Error Value} {t : Machine}
    (hrun : (Action.invoke m i this arguments).run.run s = (result, t)) :
    (∀ e, result = .error e → e.overflows = false) ∧ t.depth = s.depth
      ∧ t.executed ≤ max s.executed s.limit + 1
      ∧ (max s.executed s.limit < t.executed → ∃ e, result = .error e ∧ e.exceeds s.limit = true) := by
  have houtcome := (calls_invoke s (m.meter.refl s) hs (i := i)
    (fun (v : Value) (_ : this = some v) => Scope.all_value v)
    (fun (v : Value) (_ : v ∈ arguments) => Scope.all_value v)).outcome
  rw [hrun] at houtcome
  cases result with
  | error e =>
    obtain ⟨hdepth, hwithin, hexceeds, hoverflows⟩ := houtcome
    have hanswer : ¬ e.overflows = true := fun he => Nat.not_le_of_lt hcount (hoverflows he)
    refine ⟨fun e' he => ?_, hdepth, hwithin, fun hlt => ⟨e, rfl, (hexceeds hlt).resolve_right hanswer⟩⟩
    exact Except.error.inj he ▸ Bool.eq_false_of_not_eq_true hanswer
  | ok v =>
    obtain ⟨hcounted, -, -⟩ := houtcome
    have hwithin := hcounted.within
    exact ⟨fun e he => (nomatch he), hcounted.depth, Nat.le_succ_of_le hwithin,
      fun hlt => absurd hwithin (Nat.not_le_of_lt hlt)⟩

/-- A call ends, with a value or with an error of the machine, where the limit is not the largest number and
so many instructions have not been counted yet: calls that are nested deeper than there is room for are never
made, and none of the bounds of the definitions is used up. The counter is then at most one beyond the limit,
or beyond its start if that was beyond the limit already, and it is beyond both only if the call failed for
that reason. The level is that on which the call started. -/
theorem Action.invoke_bounded (m : Module) (hacyclic : m.Acyclic) (s : Machine)
    (hhooks : s.hooks = Machine.withRuntimeMembers.hooks) (hcount : max s.executed s.limit < maxCount)
    (i : MethodId) (this : Option Value) (arguments : List Value) :
    m.Uncut ∧ ∃ result t, (invoke m i this arguments).run.run s = (result, t)
      ∧ (∀ beyond n, s.room + 2 ≤ n → (nestedAt m beyond n i this arguments).run.run s = (result, t))
      ∧ (∀ e, result = .error e → e.overflows = false)
      ∧ t.depth = s.depth ∧ t.executed ≤ max s.executed s.limit + 1
      ∧ (max s.executed s.limit < t.executed → ∃ e, result = .error e ∧ e.exceeds s.limit = true) := by
  cases hrun : (invoke m i this arguments).run.run s with
  | mk result t =>
    refine ⟨Module.uncut hacyclic, result, t, rfl, fun beyond n hn => ?_,
      Upkeep.outcome_invoke hhooks hcount i this arguments hrun⟩
    have hagree := (Upkeep.agree_invoke (m := m) beyond (s := s) hhooks i this arguments).1 hn
    exact hagree.same.symm.trans hrun

/-- A node that listens to itself is told once, and then tells itself until the limit is reached. -/
theorem Action.invoke_bounded_listening :
    ∃ result t, (invoke (Echo.module ⟨2⟩) ⟨2⟩ (some Echo.node) Echo.change).run.run (Echo.listening ⟨2⟩ 600).2
        = (result, t)
      ∧ (∀ beyond n, (Echo.listening ⟨2⟩ 600).2.room + 2 ≤ n →
        (nestedAt (Echo.module ⟨2⟩) beyond n ⟨2⟩ (some Echo.node) Echo.change).run.run (Echo.listening ⟨2⟩ 600).2
          = (result, t))
      ∧ (∀ e, result = .error e → e.overflows = false) ∧ t.depth = 0 ∧ t.executed ≤ 601 := by
  have hacyclic : (Echo.module ⟨2⟩).Acyclic := Module.acyclic_of_declared (by decide +kernel)
  have hhooks : (Echo.listening ⟨2⟩ 600).2.hooks = Machine.withRuntimeMembers.hooks := by decide +kernel
  have hcounters : (Echo.listening ⟨2⟩ 600).2.depth = 0 ∧ (Echo.listening ⟨2⟩ 600).2.limit = 600
      ∧ (Echo.listening ⟨2⟩ 600).2.executed ≤ 600 := by
    decide +kernel
  obtain ⟨hdepth, hlimit, hexecuted⟩ := hcounters
  have hfew : max (Echo.listening ⟨2⟩ 600).2.executed (Echo.listening ⟨2⟩ 600).2.limit < maxCount := by
    have hmany : 600 < maxCount := by decide
    omega
  obtain ⟨-, result, t, hrun, hnested, hanswer, hlevel, hcount, -⟩ :=
    invoke_bounded (Echo.module ⟨2⟩) hacyclic _ hhooks hfew ⟨2⟩ (some Echo.node) Echo.change
  exact ⟨result, t, hrun, hnested, hanswer, hlevel.trans hdepth, by omega⟩

/-! ## A limit that is never exceeded -/

namespace Endless

/-- A branch to itself. -/
def code : Stream := [⟨.written 7, .branch .br (.written 7)⟩]

def turn : Method where
  token := ⟨30⟩
  name := "Turn"
  access := .publicAccess
  modifiers := .staticBit
  params := []
  returns := none
  body := some (.ofCode code)

def program : Module where
  name := "Endless"
  methods := #[some turn]

/-- A machine that may run as many instructions as can be counted. -/
def machine : Machine := { Machine.withRuntimeMembers with limit := maxCount }

/-- The frame of a body without arguments and slots. -/
def frame : Frame := ⟨[], [], []⟩

/-- The branch is run until the counter is full. -/
theorem runFrom_code (call : Call) {left : Nat} {s : Machine} (hleft : s.executed + left = maxCount)
    (hlimit : s.limit = maxCount) :
    (⟨program, turn⟩ : Site).runFrom call code (left + 1) 0 frame s
      = (.error (.emulation (.countOverflow "Turn")), { s with executed := maxCount + 1 }) := by
  induction left generalizing s with
  | zero =>
    have hfull : s.exhausted "Turn" = .countOverflow "Turn" := if_neg (by omega)
    rw [Site.runFrom_limit frame 0 rfl (by omega : s.limit ≤ s.executed)]
    show (Except.error (Error.emulation (s.exhausted "Turn")), { s with executed := s.executed + 1 }) = _
    rw [hfull, ← hleft, Nat.add_zero]
  | succ left ih =>
    rw [Site.runFrom_counted (p := 0) rfl (by omega : s.executed < s.limit)]
    exact ih (s := { s with executed := s.executed + 1 }) (by dsimp only; omega) hlimit

end Endless

open Endless in
/-- With the largest limit, a branch to itself is run until the counter of instructions is full, and there the
program ends without an answer. -/
theorem Action.endless_unanswered :
    program.Acyclic ∧ machine.hooks = Machine.withRuntimeMembers.hooks
      ∧ machine.executed = 0 ∧ machine.limit = maxCount
      ∧ ((invoke program ⟨0⟩ none []).run.run machine).1 = .error (.emulation (.countOverflow "Turn"))
      ∧ (Error.emulation (.countOverflow "Turn")).overflows = true := by
  refine ⟨Module.acyclic_of_declared (by decide +kernel), rfl, rfl, rfl, ?_, rfl⟩
  have hhook : machine.hooks.find? (⟨program, turn⟩ : Site).callName = none := by decide +kernel
  have hbody : ∀ s : Machine, (((⟨program, turn⟩ : Site).runBody (invoke program) none []).run.run s).1
      = ((⟨program, turn⟩ : Site).run (invoke program) code frame { s with depth := s.depth + 1 }).1 :=
    fun _ => rfl
  rw [invoke_eq_invokeWith (s := machine) rfl, invokeWith_passed (d := turn) rfl hhook _ _ (by decide), hbody, Site.run,
    runFrom_code (invoke program) (by decide) rfl]

end SetterLoom
