import SetterLoom.Proofs.Machine.Extends
import SetterLoom.Proofs.Machine.Handlers

/-!
# States beside a state with the same handlers

Code that makes objects, reads and announces leaves the handlers of all objects as they were. Objects that are
made have none, as long as the name in event arguments is not kept behind a changed event.

* `Heap.SameLists`: every object has the handlers that it had.
* `Machine.Adds`: a state beside another one, with the same handlers.
-/

namespace SetterLoom
set_option autoImplicit false

/-- The field is behind the changed event of some type. -/
def Module.BehindEvent (m : Module) (f : Token) : Prop :=
  ∃ t e, m.fieldInLine? t Surface.changedEvent = some e ∧ e.token = f

/-- The name in event arguments is not kept behind a changed event. -/
def Module.NameApart (m : Module) : Prop :=
  ∀ t field, m.require Surface.eventArgs = .ok t →
    (m.type? t).bind (·.field? Surface.nameField) = some field → ¬ m.BehindEvent field.token

namespace Heap

variable {m : Module} {h h' h'' : Heap} {r : HeapRef} {f type : Token} {fields : TokenMap Value} {v : Value}

theorem eventToken?_ne (hf : ¬ m.BehindEvent f) : h.eventToken? m r ≠ some f :=
  fun hevent => hf (eventToken?_eq_some hevent)

/-- Every object has the handlers that it had, and there are still only delegates behind changed events. -/
def SameLists (m : Module) (h h' : Heap) : Prop :=
  h.Sound m → h'.Sound m ∧ ∀ c, h'.handlers m c = h.handlers m c

theorem SameLists.refl (m : Module) (h : Heap) : h.SameLists m h := fun hsound => ⟨hsound, fun _ => rfl⟩

theorem SameLists.trans (hfirst : h.SameLists m h') (hrest : h'.SameLists m h'') : h.SameLists m h'' := by
  intro hsound
  obtain ⟨hsound', hlists⟩ := hfirst hsound
  obtain ⟨hsound'', hlists'⟩ := hrest hsound'
  exact ⟨hsound'', fun c => (hlists' c).trans (hlists c)⟩

theorem sameLists_push {o : HeapObject} (ho : o.Made) : h.SameLists m (h.push o) :=
  fun hsound => ⟨hsound.push ho, fun _ => handlers_push hsound ho⟩

theorem sameLists_put (hr : h.get? r = some (.object type fields)) (hf : ¬ m.BehindEvent f) :
    h.SameLists m (h.put r f v) :=
  fun hsound => ⟨hsound.put hr (eventToken?_ne hf), fun _ => handlers_put hsound hr (eventToken?_ne hf)⟩

end Heap

namespace Machine

/-- The second state is beside the first one, and all objects have the handlers that they had. -/
structure Adds (m : Module) (s t : Machine) (events : List TraceEvent) : Prop extends s.Extends m t events where
  lists : s.heap.SameLists m t.heap

theorem notices_eq (s : Machine) : s.notices = s.news.filterMap TraceEvent.notice? := by
  unfold notices news
  rw [List.filterMap_filter]
  refine List.filterMap_congr fun e _ => ?_
  cases e <;> rfl

namespace Adds

variable {m : Module} {s t u : Machine} {events events' : List TraceEvent}

theorem refl (m : Module) (s : Machine) : s.Adds m s [] := ⟨.refl m s, .refl m _⟩

theorem trans (h : s.Adds m t events) (h' : t.Adds m u events') : s.Adds m u (events ++ events') :=
  ⟨h.toExtends.trans h'.toExtends, h.lists.trans h'.lists⟩

theorem notices (h : s.Adds m t events) : t.notices = s.notices ++ events.filterMap TraceEvent.notice? := by
  rw [notices_eq, notices_eq, h.news, List.filterMap_append]

theorem spent (h : s.Adds m t events) (n : Nat) : s.Adds m (t.spent n) events :=
  ⟨h.toExtends.spent n, h.lists⟩

theorem ascend (h : ({ s with depth := s.depth + 1 } : Machine).Adds m t events) :
    s.Adds m { t with depth := t.depth - 1 } events := by
  refine ⟨⟨h.limit, h.hooks, ?_, h.heap, h.functions, h.learned, h.news⟩, h.lists⟩
  show t.depth - 1 = s.depth
  rw [h.depth]
  exact Nat.add_sub_cancel ..

theorem push (h : s.Adds m t events) {o : HeapObject} (ho : o.Made) :
    s.Adds m { t with heap := t.heap.push o } events :=
  ⟨h.toExtends.push o, h.lists.trans (Heap.sameLists_push ho)⟩

theorem entered (h : s.Adds m t events) {i : MethodId} {d : Method} (hd : m.method? i = some d) :
    s.Adds m (t.entered ⟨m, d⟩ i) events :=
  ⟨h.toExtends.entered hd, h.lists⟩

theorem record (h : s.Adds m t events) {e : TraceEvent} (he : e.isNews = true) :
    s.Adds m { t with trace := t.trace.push e } (events ++ [e]) :=
  ⟨h.toExtends.record he, h.lists⟩

theorem named (h : s.Adds m t events) (hname : m.NameApart) {i : MethodId} {d : Method} {type : TypeDef}
    {field : Field} (hmakes : m.MakesArguments i d type field) (v : Value) :
    s.Adds m (Action.named m i d type field v t) events := by
  have hextends := h.toExtends.trans (extends_named (s := t) hmakes.method type field v)
  rw [List.append_nil] at hextends
  refine ⟨hextends, h.lists.trans ?_⟩
  obtain ⟨owner, hrequire, hfield⟩ := hmakes.name
  have hmade : (HeapObject.object type.token .empty).Made := by
    intro type' fields heq
    obtain ⟨-, rfl⟩ := HeapObject.object.inj heq
    rfl
  exact (Heap.sameLists_push hmade).trans
    (Heap.sameLists_put (t.heap.get?_push_new _) (hname owner field hrequire hfield))

end Adds

end Machine

end SetterLoom
