import SetterLoom.Proofs.Machine.Answered

/-!
# States beside a state

Woven code makes objects, learns methods and adds to the trace, and leaves all objects that were there as
they were. A state extends another one by some news: events of the trace that are not calls.

* `extends_getter`, `extends_named`, `extends_raised`: what the calls of woven code come to.
-/

namespace SetterLoom
set_option autoImplicit false

/-- The event is not a call. -/
def TraceEvent.isNews : TraceEvent → Bool
  | .called _ => false
  | _ => true

namespace Machine

/-- What the trace tells besides calls. -/
def news (s : Machine) : List TraceEvent := s.trace.toList.filter TraceEvent.isNews

/-- The second state has all objects of the first one as they are there, and the given news on top. -/
structure Extends (m : Module) (s t : Machine) (events : List TraceEvent) : Prop where
  limit : t.limit = s.limit
  hooks : t.hooks = s.hooks
  depth : t.depth = s.depth
  heap : ∀ r o, s.heap.get? r = some o → t.heap.get? r = some o
  functions : ∀ k i, s.functions.get? k = some i → t.functions.get? k = some i
  learned : ∀ k i, t.functions.get? k = some i → s.functions.get? k = some i
    ∨ ∃ d, m.method? i = some d ∧ d.token = k
  news : t.news = s.news ++ events

namespace Extends

variable {m : Module} {s t u : Machine} {events events' : List TraceEvent}

theorem refl (m : Module) (s : Machine) : s.Extends m s [] :=
  ⟨rfl, rfl, rfl, fun _ _ h => h, fun _ _ h => h, fun _ _ h => .inl h, (List.append_nil _).symm⟩

theorem trans (h : s.Extends m t events) (h' : t.Extends m u events') :
    s.Extends m u (events ++ events') where
  limit := h'.limit.trans h.limit
  hooks := h'.hooks.trans h.hooks
  depth := h'.depth.trans h.depth
  heap := fun r o hr => h'.heap r o (h.heap r o hr)
  functions := fun k i hk => h'.functions k i (h.functions k i hk)
  learned := fun k i hk => by
    rcases h'.learned k i hk with hold | hnew
    · exact h.learned k i hold
    · exact .inr hnew
  news := by rw [h'.news, h.news, List.append_assoc]

theorem of_alike {m' : Module} (halike : m.Alike m') (h : s.Extends m' t events) :
    s.Extends m t events := by
  refine ⟨h.limit, h.hooks, h.depth, h.heap, h.functions, fun k i hk => ?_, h.news⟩
  rcases h.learned k i hk with hold | ⟨d', hd', htoken⟩
  · exact .inl hold
  · have hi := halike.signatures i
    rw [hd', Option.map_some] at hi
    obtain ⟨d, hd, hsignature⟩ := Option.map_eq_some_iff.mp hi.symm
    exact .inr ⟨d, hd, (Module.Alike.token_eq hsignature).trans htoken⟩

theorem spent (h : s.Extends m t events) (n : Nat) : s.Extends m (t.spent n) events :=
  ⟨h.limit, h.hooks, h.depth, h.heap, h.functions, h.learned, h.news⟩

theorem push (h : s.Extends m t events) (o : HeapObject) :
    s.Extends m { t with heap := t.heap.push o } events := by
  refine ⟨h.limit, h.hooks, h.depth, fun r o' hr => ?_, h.functions, h.learned, h.news⟩
  have hold := h.heap r o' hr
  show (t.heap.push o).get? r = some o'
  rw [Heap.get?_push_old t.heap o (Heap.get?_eq_some hold).2, hold]

theorem entered (h : s.Extends m t events) {i : MethodId} {d : Method}
    (hd : m.method? i = some d) : s.Extends m (t.entered ⟨m, d⟩ i) events where
  limit := h.limit
  hooks := h.hooks
  depth := h.depth
  heap := h.heap
  functions := fun k j hk => by
    show (t.functions.insertNew d.token i).get? k = some j
    rw [TokenMap.get?_insertNew]
    have hold := h.functions k j hk
    split
    · rename_i heq
      rw [← heq, hold, Option.getD_some]
    · exact hold
  learned := fun k j hk => by
    have hk : (t.functions.insertNew d.token i).get? k = some j := hk
    rw [TokenMap.get?_insertNew] at hk
    split at hk
    · rename_i heq
      cases hknown : t.functions.get? d.token with
      | none =>
        rw [hknown, Option.getD_none] at hk
        obtain rfl := Option.some.inj hk
        exact .inr ⟨d, hd, heq.symm⟩
      | some j' =>
        rw [hknown, Option.getD_some] at hk
        obtain rfl := Option.some.inj hk
        exact h.learned k j' (heq ▸ hknown)
    · exact h.learned k j hk
  news := by
    have hcall : (t.entered ⟨m, d⟩ i).news = t.news := by
      unfold Machine.news Machine.entered
      dsimp only
      rw [Array.toList_push, List.filter_append]
      exact List.append_nil _
    rw [hcall, h.news]

theorem record (h : s.Extends m t events) {e : TraceEvent} (he : e.isNews = true) :
    s.Extends m { t with trace := t.trace.push e } (events ++ [e]) := by
  refine ⟨h.limit, h.hooks, h.depth, h.heap, h.functions, h.learned, ?_⟩
  have hnews : ({ t with trace := t.trace.push e } : Machine).news = t.news ++ [e] := by
    unfold Machine.news
    dsimp only
    rw [Array.toList_push, List.filter_append, List.filter_singleton, he]
    rfl
  rw [hnews, h.news, List.append_assoc]

theorem put (h : s.Extends m t events) {r : HeapRef} (hr : s.heap.get? r = none)
    (hpos : 0 < r.id) (f : Token) (v : Value) :
    s.Extends m { t with heap := t.heap.put r f v } events := by
  refine ⟨h.limit, h.hooks, h.depth, fun q o hq => ?_, h.functions, h.learned, h.news⟩
  have hne : q ≠ r := by
    rintro rfl
    rw [hr] at hq
    cases hq
  show (t.heap.put r f v).get? q = some o
  rw [Heap.get?_put t.heap r q f v hpos, if_neg hne]
  exact h.heap q o hq

end Extends

theorem get?_next (s : Machine) : s.heap.get? s.heap.next = none := by
  unfold Heap.get? Heap.next
  simp

/-! ## The calls of woven code -/

variable {m : Module} {s : Machine} {i : MethodId} {d : Method}

theorem extends_getter (hd : m.method? i = some d) (n : Nat) :
    s.Extends m ((s.entered ⟨m, d⟩ i).spent n) [] :=
  ((Extends.refl m s).entered hd).spent n

theorem extends_named (hd : m.method? i = some d) (type : TypeDef) (field : Field) (v : Value) :
    s.Extends m (Action.named m i d type field v s) [] := by
  have hmade := ((Extends.refl m s).push (.object type.token .empty)).put s.get?_next
    (Nat.succ_pos _) field.token v
  exact (hmade.entered hd).spent 4

theorem get?_named (m : Module) (i : MethodId) (d : Method) (type : TypeDef) (field : Field)
    (v : Value) (s : Machine) :
    (Action.named m i d type field v s).heap.get? s.heap.next
      = some (.object type.token ((TokenMap.empty : TokenMap Value).insert field.token v)) := by
  show ((s.heap.push (.object type.token .empty)).put s.heap.next field.token v).get? _ = _
  have hpos : 0 < s.heap.next.id := Nat.succ_pos _
  rw [Heap.get?_put _ _ _ _ _ hpos, if_pos rfl, Heap.get?_push_new]
  rfl

theorem extends_raised (hd : m.method? i = some d) {r : HeapRef} {name : String}
    {before after : Option Value} :
    s.Extends m { s.entered ⟨m, d⟩ i with
      trace := (s.entered ⟨m, d⟩ i).trace.push (.notified r name before after) }
      [.notified r name before after] :=
  ((Extends.refl m s).entered hd).record rfl

end Machine

end SetterLoom
