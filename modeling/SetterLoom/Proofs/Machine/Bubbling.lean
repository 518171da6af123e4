import SetterLoom.Proofs.Machine.Growing
import SetterLoom.Proofs.Machine.Snapshot

/-!
# Notices that bubble up

An object that announces a property calls its handlers, and these announce properties of other objects. So
one notice leads to a tree of notices: what follows from it comes right behind it, handler by handler, and
before everything that is announced afterwards.

* `Bubbling`: the notices that come of a list of notices, and `Bubbling.unique`: they are determined.
* `Machine.Heeds`: a call of a handler gives the notices of the handler, and what follows from them.
* `Action.raiser_bubbles`: raising the event of an object whose handlers are of that kind.
-/

namespace SetterLoom
set_option autoImplicit false

/-- The notices that come of notices given one after the other. `follow` gives the notices that an object's
handlers give when the object announces a property. -/
inductive Bubbling (follow : HeapRef → List Notice) : List Notice → List Notice → Prop
  | nil : Bubbling follow [] []
  | cons {r : HeapRef} {name : String} {rest inner outer : List Notice}
    (handlers : Bubbling follow (follow r) inner) (more : Bubbling follow rest outer) :
    Bubbling follow ((r, name) :: rest) ((r, name) :: (inner ++ outer))

namespace Bubbling

variable {follow : HeapRef → List Notice} {work work' out out' : List Notice}

theorem append (h : Bubbling follow work out) (h' : Bubbling follow work' out') :
    Bubbling follow (work ++ work') (out ++ out') := by
  induction h with
  | nil => exact h'
  | cons handlers _ _ ih =>
    rw [List.cons_append, List.cons_append, List.append_assoc]
    exact .cons handlers ih

theorem unique (h : Bubbling follow work out) (h' : Bubbling follow work out') : out' = out := by
  induction h generalizing out' with
  | nil =>
    cases h'
    rfl
  | cons _ _ ihHandlers ihMore =>
    cases h' with
    | cons handlers more => rw [ihHandlers handlers, ihMore more]

end Bubbling

/-- The notices of a handler: its receiver announces the names that go with its method. -/
def Invocation.notices (names : Token → List String) (i : Invocation) : List Notice :=
  i.target.toList.flatMap fun p => (names i.method).map fun name => (p, name)

namespace Heap

variable {m : Module} {names : Token → List String} {h h' : Heap}

/-- The notices of all handlers of an object. -/
def follow (m : Module) (names : Token → List String) (h : Heap) (r : HeapRef) : List Notice :=
  (h.handlers m r).flatMap fun i => i.notices names

theorem follow_eq (hsound : h.Sound m) (hlists : h.SameLists m h') : h'.follow m names = h.follow m names := by
  funext r
  unfold follow
  rw [(hlists hsound).2 r]

end Heap

namespace Machine

variable {m : Module} {names : Token → List String} {s t u : Machine} {events : List TraceEvent}
  {work work' : List Notice}

/-- The second state is beside the first one, and tells of the notices and what comes of them. -/
def Bubbles (m : Module) (names : Token → List String) (work : List Notice) (s t : Machine) : Prop :=
  ∃ events, s.Adds m t events ∧ Bubbling (s.heap.follow m names) work (events.filterMap TraceEvent.notice?)

theorem Adds.bubbles (h : s.Adds m t []) : s.Bubbles m names [] t := ⟨[], h, .nil⟩

theorem Bubbles.trans (hsound : s.heap.Sound m) (h : s.Bubbles m names work t)
    (h' : t.Bubbles m names work' u) : s.Bubbles m names (work ++ work') u := by
  obtain ⟨events, hadds, hbubbling⟩ := h
  obtain ⟨events', hadds', hbubbling'⟩ := h'
  refine ⟨events ++ events', hadds.trans hadds', ?_⟩
  rw [Heap.follow_eq hsound hadds.lists] at hbubbling'
  rw [List.filterMap_append]
  exact hbubbling.append hbubbling'

theorem Bubbles.spent (h : s.Bubbles m names work t) (n : Nat) : s.Bubbles m names work (t.spent n) := by
  obtain ⟨events, hadds, hbubbling⟩ := h
  exact ⟨events, hadds.spent n, hbubbling⟩

theorem Bubbles.ascend (h : ({ s with depth := s.depth + 1 } : Machine).Bubbles m names work t) :
    s.Bubbles m names work { t with depth := t.depth - 1 } := by
  obtain ⟨events, hadds, hbubbling⟩ := h
  exact ⟨events, hadds.ascend, hbubbling⟩

/-- A call of the handler, beside the state, gives its notices and what comes of them. -/
def Heeds (m : Module) (names : Token → List String) (b : Machine) (call : Call) (i : Invocation) : Prop :=
  ∀ ⦃events k arguments v s t⦄, b.Adds m s events → s.functions.get? i.method = some k →
    (call k (i.target.map .ref) arguments).run.run s = (.ok v, t) → s.Bubbles m names (i.notices names) t

end Machine

namespace Action

variable {m : Module} {names : Token → List String} {call : Call} {bound : Nat} {b s t : Machine}
  {events : List TraceEvent} {r : HeapRef} {type : Token} {fields : TokenMap Value} {arguments : List Value}
  {v : Value} {name : String}

theorem body_of_invokeAt {i : MethodId} {d : Method} {this : Option Value} (hd : m.method? i = some d)
    (hbody : d.body.isSome) (hs : s.hooks = Machine.withRuntimeMembers.hooks)
    (h : (invokeAt m (bound + 1) i this arguments).run.run s = (.ok v, t)) :
    ((⟨m, d⟩ : Site).runBody (invokeAt m bound) this arguments).run.run (s.entered ⟨m, d⟩ i) = (.ok v, t) := by
  rw [invokeAt] at h
  obtain ⟨-, hrest⟩ := (invokeWith_run hd this arguments).mp h
  rw [bind_run, Site.answer_of_body (c := ⟨m, d⟩) (s := s.entered ⟨m, d⟩ i) hbody this arguments hs] at hrest
  exact hrest

theorem invokeEach_bubbles {list : List Invocation} (hsound : b.heap.Sound m)
    (hheeds : ∀ i ∈ list, b.Heeds m names call i) (hs : b.Adds m s events)
    (h : (invokeEach call arguments list).run.run s = (.ok (), t)) :
    s.Bubbles m names (list.flatMap fun i => i.notices names) t := by
  -- each handler is called in a state that only adds to the one the list was read in, so
  -- what is known of the handlers there still holds
  induction list generalizing s events with
  | nil =>
    obtain ⟨-, rfl⟩ := Steps.pure_ok.mp h
    exact (Machine.Adds.refl m _).bubbles
  | cons i rest ih =>
    obtain ⟨j, _, hknown, hcalls⟩ := Steps.bind_ok.mp h
    obtain ⟨hj, rfl⟩ := known_ok hknown
    obtain ⟨v, u, hcall, hrest⟩ := Steps.bind_ok.mp hcalls
    have hfirst := hheeds i List.mem_cons_self hs hj hcall
    obtain ⟨_, hadds, -⟩ := id hfirst
    rw [List.flatMap_cons]
    exact hfirst.trans (hs.lists hsound).1
      (ih (fun j hj => hheeds j (List.mem_cons_of_mem _ hj)) (hs.trans hadds) hrest)

/-- Raising the event of an object calls the handlers that it has, behind some allocations. -/
theorem raiseEvent_ok {c : MethodId} {d : Method} {args : TypeDef} {field : Field} (hname : m.NameApart)
    (hprepares : m.Prepares c d args field s.hooks) (hsound : s.heap.Sound m)
    (h : (raiseEvent m (invokeAt m bound) r name).run.run s = (.ok (), t)) :
    ∃ u arguments, s.Adds m u []
      ∧ (invokeEach (invokeAt m bound) arguments (s.heap.handlers m r)).run.run u = (.ok (), t) := by
  obtain ⟨hnone, rfl⟩ | ⟨c', x, u, hc', hconstruct, hcalls⟩ :=
    raiseEvent_calls (fun hrun => (later_invokeAt hrun).1) (hsound.attached r) h
  · refine ⟨t, [], .refl m t, ?_⟩
    rw [hnone]
    rfl
  · obtain ⟨-, rfl⟩ :=
      named_of_construct (s := { s with heap := s.heap.push (.string name) }) hprepares hc' hconstruct
    have hmade : s.Adds m { s with heap := s.heap.push (.string name) } [] :=
      (Machine.Adds.refl m s).push fun _ _ heq => by cases heq
    exact ⟨_, _, hmade.named hname hprepares.makes (.ref s.heap.next), hcalls⟩

/-- The machine answers for the invoker with the notice, and with what the handlers of the object make of it. -/
theorem raiser_bubbles {i c : MethodId} {d e : Method} {args : TypeDef} {field : Field} {before after : Option Value}
    (hname : m.NameApart) (hprepares : m.Prepares c e args field b.hooks) (hsound : b.heap.Sound m)
    (hraises : m.Raises i d b.hooks)
    (hheeds : ∀ j ∈ b.heap.handlers m r, b.Heeds m names (invokeAt m bound) j) (hs : b.Adds m s events)
    (hannounced : ∀ u : Machine, u.heap = s.heap →
      (announcement m arguments).run.run u = (.ok (name, before, after), u))
    (h : (invokeAt m (bound + 1) i (some (.ref r)) arguments).run.run s = (.ok v, t)) :
    s.Bubbles m names [(r, name)] t := by
  rw [invokeAt] at h
  obtain ⟨hdepth, -⟩ := (invokeWith_run hraises.method _ _).mp h
  obtain ⟨hook, hcalled⟩ := raiser_called (invokeAt m bound) r (hs.hooks.symm ▸ hraises) hdepth hannounced
  rw [hcalled] at h
  have hnoticed : s.Adds m (announced m i d r name before after s) [.notified r name before after] :=
    ((Machine.Adds.refl m s).entered hraises.method).record rfl
  have hbeside := hs.trans hnoticed
  split at h
  · rename_i x u hraised
    obtain ⟨-, rfl⟩ := Prod.mk.inj h
    obtain ⟨y, arguments', hy, heach⟩ := raiseEvent_ok hname (hbeside.hooks.symm ▸ hprepares)
      (hbeside.lists hsound).1 hraised
    rw [(hbeside.lists hsound).2 r] at heach
    obtain ⟨events', hadds, hbubbling⟩ := invokeEach_bubbles hsound hheeds (hbeside.trans hy) heach
    refine ⟨_, (hnoticed.trans hy).trans hadds, ?_⟩
    -- nobody's handlers have changed, so the notices are those of the state at the start
    have hfollow : y.heap.follow m names = s.heap.follow m names :=
      Heap.follow_eq (hs.lists hsound).1 (hnoticed.trans hy).lists
    have hwork : (b.heap.handlers m r).flatMap (fun j => j.notices names) = s.heap.follow m names r := by
      unfold Heap.follow
      rw [(hs.lists hsound).2 r]
    rw [hfollow, hwork] at hbubbling
    have hall : Bubbling (s.heap.follow m names) [(r, name)] ((r, name) :: (_ ++ [])) := .cons hbubbling .nil
    rw [List.append_nil] at hall
    exact hall
  · cases (Prod.mk.inj h).1

end Action

end SetterLoom
