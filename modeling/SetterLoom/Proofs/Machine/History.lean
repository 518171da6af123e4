import Mathlib.Data.List.Induction
import SetterLoom.Machine.State

/-!
# The heap by its history

What the heap answers depends on what was asked of it before, and on nothing else. A history notes each
operation with its reply. The objects that were made and the stores that succeeded can be read off it, and
with them every further reply. Operations on other objects and on other fields, reads, and operations that
failed make no difference.

* `HeapOp.perform_cases`: an operation makes an object, stores a value, or leaves the machine as it is.
* `HeapLog.get?_fields`: of several stores in a field the last one counts.
* `HeapLog.Tells`: a log tells what is in a heap. An operation keeps that (`Tells.perform`), and so does any
  number of them (`Tells.history`).
* `HeapOp.reply_of_history`: the reply to an operation after any history.
-/

namespace SetterLoom
set_option autoImplicit false

/-! ## Operations -/

/-- An operation on the heap. -/
inductive HeapOp where
  | makeString (text : String)
  | makeObject (type : Token)
  | makeBox (type : Token) (value : Value)
  | makeDelegate (type : Token) (invocations : List Invocation)
  | get (r : HeapRef)
  | getString (r : HeapRef)
  | typeOf (r : HeapRef)
  | getField (r : HeapRef) (field : Token)
  | setField (r : HeapRef) (field : Token) (value : Value)
  | count
  deriving DecidableEq, Repr

/-- What an operation that succeeds replies. -/
inductive HeapReply where
  | made (r : HeapRef)
  | object (o : HeapObject)
  | text (s : String)
  | type (t : Option Token)
  | field (v : Option Value)
  | stored
  | count (n : Nat)
  deriving DecidableEq, Repr

/-- Operations with their replies, in order. -/
abbrev HeapLog := List (HeapOp × Except Error HeapReply)

theorem Action.map_run {α β : Type} (g : α → β) (a : Action α) (s : Machine) :
    (g <$> a).run.run s = ((a.run.run s).1.map g, (a.run.run s).2) := by
  rw [map_eq_pure_bind, bind_run]
  rcases a.run.run s with ⟨_ | _, _⟩ <;> rfl

theorem Action.setField_fst (r : HeapRef) (f : Token) (v : Value) (s : Machine) :
    ((setField r f v).run.run s).1 = s.heap.checkStore r f := by
  show (setField r f v s).1 = _
  unfold setField
  cases s.heap.checkStore r f <;> rfl

namespace HeapOp

/-- The object that an operation makes. -/
def made? : HeapOp → Option HeapObject
  | makeString text => some (.string text)
  | makeObject type => some (.object type .empty)
  | makeBox type value => some (.boxed type value)
  | makeDelegate type invocations => some (.delegate type invocations)
  | _ => none

/-- What the machine does for an operation. -/
def perform : HeapOp → Action HeapReply
  | makeString text => .made <$> Action.alloc (.string text)
  | makeObject type => .made <$> Action.alloc (.object type .empty)
  | makeBox type value => .made <$> Action.alloc (.boxed type value)
  | makeDelegate type invocations => .made <$> Action.alloc (.delegate type invocations)
  | get r => .object <$> Action.heap (·.get r)
  | getString r => .text <$> Action.heap (·.getString r)
  | typeOf r => .type <$> Action.heap (·.typeOf r)
  | getField r field => .field <$> Action.heap (·.getField r field)
  | setField r field value => (fun _ => .stored) <$> Action.setField r field value
  | count => (fun s => .count s.heap.size) <$> MonadState.get

/-- Operations one after the other. One that fails is noted, and the next one has its turn. -/
def history : List HeapOp → Machine → HeapLog × Machine
  | [], s => ([], s)
  | op :: ops, s =>
    let (reply, t) := op.perform.run.run s
    let (log, u) := history ops t
    ((op, reply) :: log, u)

variable {op : HeapOp} {s t : Machine} {reply : Except Error HeapReply}

theorem perform_cases (h : op.perform.run.run s = (reply, t)) :
    (∃ o, op.made? = some o ∧ reply = .ok (.made s.heap.next) ∧ t = { s with heap := s.heap.push o })
    ∨ (∃ r f v type fields, op = .setField r f v ∧ s.heap.get? r = some (.object type fields)
        ∧ reply = .ok .stored ∧ t = { s with heap := s.heap.put r f v })
    ∨ (op.made? = none ∧ (∀ r f v, op = .setField r f v → ∃ e, reply = .error e)
        ∧ (∀ r, reply ≠ .ok (.made r)) ∧ t = s) := by
  -- what only looks something up is the same for every kind of look-up
  have reads {α : Type} {read : Heap → Except Error α} {g : α → HeapReply}
      (hrun : (g <$> Action.heap read).run.run s = (reply, t)) (hg : ∀ a r, g a ≠ .made r) :
      (∀ r, reply ≠ .ok (.made r)) ∧ t = s := by
    rw [Action.map_run, Action.heap_run] at hrun
    obtain ⟨rfl, rfl⟩ := Prod.mk.inj hrun
    refine ⟨fun r => ?_, rfl⟩
    cases read s.heap with
    | error e => exact nofun
    | ok a => exact fun hmade => hg a r (Except.ok.inj hmade)
  cases op with
  | makeString | makeObject | makeBox | makeDelegate =>
    obtain ⟨rfl, rfl⟩ := Prod.mk.inj h
    exact .inl ⟨_, rfl, rfl, rfl⟩
  | get | getString | typeOf | getField =>
    exact .inr (.inr ⟨rfl, nofun, reads h nofun⟩)
  | count =>
    obtain ⟨rfl, rfl⟩ := Prod.mk.inj h
    exact .inr (.inr ⟨rfl, nofun, nofun, rfl⟩)
  | setField r f v =>
    rw [perform, Action.map_run] at h
    obtain ⟨hreply, ht⟩ := Prod.mk.inj h
    change ((Action.setField r f v) s).1.map _ = reply at hreply
    change ((Action.setField r f v) s).2 = t at ht
    unfold Action.setField at hreply ht
    cases hcheck : s.heap.checkStore r f with
    | ok u =>
      rw [hcheck] at hreply ht
      obtain ⟨type, fields, hr⟩ := Heap.checkStore_eq_ok.mp hcheck
      exact .inr (.inl ⟨r, f, v, type, fields, rfl, hr, hreply.symm, ht.symm⟩)
    | error e =>
      rw [hcheck] at hreply ht
      subst hreply
      exact .inr (.inr ⟨rfl, fun _ _ _ _ => ⟨e, rfl⟩, nofun, ht.symm⟩)

end HeapOp

/-! ## What a log tells -/

/-- The object with these fields, if it has fields. -/
def HeapObject.filled (fields : TokenMap Value) : HeapObject → HeapObject
  | .object t _ => .object t fields
  | o => o

theorem Heap.get?_push (h : Heap) (o : HeapObject) (r : HeapRef) :
    (h.push o).get? r = if r = h.next then some o else h.get? r := by
  obtain ⟨_ | n⟩ := r
  · simp [get?, next]
  · simp [get?, next, push, Array.getElem?_push]

namespace HeapLog

/-- The objects that were made, as they were when they were made. -/
def made (log : HeapLog) : List HeapObject := log.filterMap (·.1.made?)

/-- The references that were given out. -/
def refs (log : HeapLog) : List HeapRef :=
  log.filterMap fun
    | (_, .ok (.made r)) => some r
    | _ => none

/-- The stores into an object that succeeded, as fields with values. -/
def stores (log : HeapLog) (r : HeapRef) : List (Token × Value) :=
  log.filterMap fun
    | (.setField q field value, .ok _) => if q = r then some (field, value) else none
    | _ => none

/-- The object with the number of the reference, as it was when it was made. -/
def object? (log : HeapLog) (r : HeapRef) : Option HeapObject :=
  if r.id = 0 then none else log.made[r.id - 1]?

/-- The value of the last store into a field that succeeded. -/
def stored? (log : HeapLog) (r : HeapRef) (field : Token) : Option Value :=
  ((log.stores r).reverse.find? (·.1 == field)).map (·.2)

/-- All that was stored in the fields of an object. -/
def fields (log : HeapLog) (r : HeapRef) : TokenMap Value :=
  (log.stores r).foldl (fun fields e => fields.insert e.1 e.2) .empty

/-- What is replied about the object that was made under a reference. -/
def about (log : HeapLog) (r : HeapRef) (answer : HeapObject → Except Error HeapReply) :
    Except Error HeapReply :=
  match log.object? r with
  | some o => answer o
  | none => .error (.emulation (.danglingRef r))

/-- The reply to the operation that follows. -/
def reply (log : HeapLog) : HeapOp → Except Error HeapReply
  | .makeString _ | .makeObject _ | .makeBox _ _ | .makeDelegate _ _ => .ok (.made ⟨log.made.length + 1⟩)
  | .get r => log.about r fun o => .ok (.object (o.filled (log.fields r)))
  | .getString r => log.about r fun
    | .string s => .ok (.text s)
    | o => .error (.emulation (.notAString r o.kind))
  | .typeOf r => log.about r fun o => .ok (.type o.type?)
  | .getField r field => log.about r fun
    | .object _ _ => .ok (.field (log.stored? r field))
    | o => .error (.emulation (.loadFrom field o.kind))
  | .setField r field _ => log.about r fun
    | .object _ _ => .ok .stored
    | o => .error (.emulation (.storeTo field o.kind))
  | .count => .ok (.count log.made.length)

variable {log : HeapLog}

/-- Of several stores in a field the last one counts. -/
theorem get?_fields (log : HeapLog) (r : HeapRef) (field : Token) :
    (log.fields r).get? field = log.stored? r field := by
  unfold fields stored?
  -- the last store counts, so the stores are taken from the end
  induction log.stores r using List.reverseRecOn with
  | nil => rfl
  | append_singleton front e ih =>
    rw [List.foldl_append, List.foldl_cons, List.foldl_nil, TokenMap.get?_insert, List.reverse_concat,
      List.find?_cons]
    by_cases he : field = e.1
    · rw [if_pos he, beq_iff_eq.mpr he.symm]
      rfl
    · rw [if_neg he, beq_eq_false_iff_ne.mpr (Ne.symm he), ih]

/-! ## Every step -/

/-- A log tells what is in a heap: which objects, under which numbers, and what was stored in them. -/
structure Tells (log : HeapLog) (h : Heap) : Prop where
  size : h.size = log.made.length
  refs : log.refs = (List.range log.made.length).map fun n => ⟨n + 1⟩
  objects : ∀ r, h.get? r = (log.object? r).map (·.filled (log.fields r))
  /-- Nothing is stored in an object before it is made. -/
  unmade : ∀ r, log.object? r = none → log.stores r = []

theorem tells_nil : Tells [] {} where
  size := rfl
  refs := rfl
  objects r := by
    unfold Heap.get? object?
    split <;> rfl
  unmade _ _ := rfl

variable {op : HeapOp} {reply : Except Error HeapReply} {o : HeapObject} {r : HeapRef} {f : Token}
  {v : Value}

/-! ### One more entry -/

theorem made_concat (log : HeapLog) (op : HeapOp) (reply : Except Error HeapReply) :
    made (log ++ [(op, reply)]) = log.made ++ op.made?.toList := by
  unfold made
  rw [List.filterMap_append]
  cases hmade : op.made? <;> simp [hmade]

theorem refs_concat_made (log : HeapLog) (op : HeapOp) (r : HeapRef) :
    refs (log ++ [(op, .ok (.made r))]) = log.refs ++ [r] := by
  simp [refs]

theorem refs_concat_of_ne (hreply : ∀ r, reply ≠ .ok (.made r)) :
    refs (log ++ [(op, reply)]) = log.refs := by
  unfold refs
  rw [List.filterMap_append]
  obtain e | a := reply
  · simp
  · cases a with
    | made r => exact absurd rfl (hreply r)
    | _ => simp

theorem stores_concat_stored (log : HeapLog) (r q : HeapRef) (f : Token) (v : Value) :
    stores (log ++ [(.setField r f v, .ok .stored)]) q
      = log.stores q ++ if r = q then [(f, v)] else [] := by
  unfold stores
  rw [List.filterMap_append]
  split <;> simp [*]

theorem stores_concat_of_failed (hop : ∀ r f v, op = .setField r f v → ∃ e, reply = .error e)
    (q : HeapRef) : stores (log ++ [(op, reply)]) q = log.stores q := by
  unfold stores
  rw [List.filterMap_append]
  cases op with
  | setField r f v =>
    obtain ⟨e, rfl⟩ := hop r f v rfl
    simp
  | _ => simp

theorem object?_concat {log' : HeapLog} (hmade : log'.made = log.made ++ [o]) (r : HeapRef) :
    log'.object? r = if r = ⟨log.made.length + 1⟩ then some o else log.object? r := by
  unfold object?
  obtain ⟨_ | n⟩ := r
  · simp
  · rw [hmade, if_neg (Nat.succ_ne_zero n), if_neg (Nat.succ_ne_zero n), Nat.add_sub_cancel,
      List.getElem?_append]
    simp only [HeapRef.mk.injEq, Nat.add_right_cancel_iff]
    split
    · rw [if_neg (by omega)]
    · split
      · subst n
        simp
      · rw [List.getElem?_eq_none (by simp; omega), List.getElem?_eq_none (by omega)]

namespace Tells

variable {h : Heap} {s t : Machine}

theorem next (htells : Tells log h) : h.next = ⟨log.made.length + 1⟩ :=
  congrArg (fun n => HeapRef.mk (n + 1)) htells.size

theorem push {log' : HeapLog} (htells : Tells log h) (hmade : log'.made = log.made ++ [o])
    (hrefs : log'.refs = log.refs ++ [h.next]) (hstores : ∀ r, log'.stores r = log.stores r)
    (ho : o.filled .empty = o) : Tells log' (h.push o) where
  size := by rw [Heap.size_push, hmade, List.length_append, htells.size]; rfl
  refs := by
    rw [hrefs, hmade, htells.refs, htells.next, List.length_append, List.length_singleton,
      List.range_succ, List.map_append]
    rfl
  objects r := by
    rw [object?_concat hmade, ← htells.next, Heap.get?_push, fields, hstores]
    by_cases hr : r = h.next
    · have hnone : log.object? r = none := by
        rw [hr, htells.next]
        simp [object?]
      rw [if_pos hr, if_pos hr, htells.unmade r hnone, List.foldl_nil, Option.map_some, ho]
    · rw [if_neg hr, if_neg hr, htells.objects]
      rfl
  unmade r hr := by
    rw [object?_concat hmade] at hr
    split at hr
    · cases hr
    · rw [hstores, htells.unmade r hr]

theorem put {log' : HeapLog} {type : Token} {old : TokenMap Value} (htells : Tells log h)
    (hr : h.get? r = some (.object type old)) (hmade : log'.made = log.made) (hrefs : log'.refs = log.refs)
    (hstores : ∀ q, log'.stores q = log.stores q ++ if r = q then [(f, v)] else []) :
    Tells log' (h.put r f v) where
  size := by rw [hmade, ← htells.size]; exact Array.size_modify
  refs := by rw [hrefs, hmade, htells.refs]
  objects q := by
    have hobject : log'.object? q = log.object? q := by rw [object?, object?, hmade]
    rw [Heap.get?_put h r q f v (Heap.get?_eq_some hr).1, hobject, fields, hstores, htells.objects]
    by_cases hq : q = r
    · rw [if_pos hq, if_pos hq.symm, List.foldl_append]
      cases hob : log.object? q with
      | none => rfl
      | some o => cases o <;> rfl
    · rw [if_neg hq, if_neg (Ne.symm hq), List.append_nil]
      rfl
  unmade q hq := by
    rw [object?, hmade] at hq
    have hne : r ≠ q := by
      rintro rfl
      have hnone := htells.objects r
      rw [hr, object?, hq] at hnone
      cases hnone
    rw [hstores, if_neg hne, List.append_nil]
    exact htells.unmade q hq

theorem idle {log' : HeapLog} (htells : Tells log h) (hmade : log'.made = log.made)
    (hrefs : log'.refs = log.refs) (hstores : ∀ r, log'.stores r = log.stores r) : Tells log' h where
  size := by rw [htells.size, hmade]
  refs := by rw [hrefs, hmade, htells.refs]
  objects r := by rw [htells.objects, fields, fields, object?, object?, hmade, hstores]
  unmade r hr := by
    rw [object?, hmade] at hr
    rw [hstores, htells.unmade r hr]

theorem perform (htells : Tells log s.heap) (hrun : op.perform.run.run s = (reply, t)) :
    Tells (log ++ [(op, reply)]) t.heap := by
  rcases HeapOp.perform_cases hrun with ⟨o, ho, rfl, rfl⟩ | ⟨r, f, v, type, old, rfl, hr, rfl, rfl⟩
    | ⟨ho, hfailed, hreply, rfl⟩
  · refine htells.push (o := o) ?_ (refs_concat_made log op _) (stores_concat_of_failed ?_) ?_
    · rw [made_concat, ho]
      rfl
    · rintro r f v rfl
      cases ho
    · cases op <;> cases ho <;> rfl
  · refine htells.put hr ?_ (refs_concat_of_ne nofun) fun q => stores_concat_stored log r q f v
    rw [made_concat]
    exact List.append_nil _
  · refine htells.idle ?_ (refs_concat_of_ne hreply) (stores_concat_of_failed hfailed)
    rw [made_concat, ho]
    exact List.append_nil _

theorem history {ops : List HeapOp} {log' : HeapLog} (htells : Tells log s.heap)
    (hrun : HeapOp.history ops s = (log', t)) : Tells (log ++ log') t.heap := by
  induction ops generalizing log s log' with
  | nil =>
    obtain ⟨rfl, rfl⟩ := Prod.mk.inj hrun
    rwa [List.append_nil]
  | cons op ops ih =>
    obtain ⟨rfl, rfl⟩ := Prod.mk.inj hrun
    have hstep := htells.perform (Prod.eta (op.perform.run.run s)).symm
    rw [← List.singleton_append, ← List.append_assoc]
    exact ih hstep (Prod.eta _).symm

/-- What a look-up finds under a reference is what the log says of it. -/
theorem get_eq (htells : Tells log h) (r : HeapRef) {α : Type} {g : α → HeapReply}
    {answer : HeapObject → Except Error α} :
    (h.get r >>= answer).map g
      = log.about r fun o => (answer (o.filled (log.fields r))).map g := by
  unfold Heap.get about
  rw [htells.objects]
  cases log.object? r <;> rfl

theorem reply_eq (htells : Tells log s.heap) (hrun : op.perform.run.run s = (reply, t)) :
    reply = log.reply op := by
  obtain rfl : (op.perform.run.run s).1 = reply := congrArg Prod.fst hrun
  cases op with
  | makeString | makeObject | makeBox | makeDelegate => exact congrArg (fun r => Except.ok (HeapReply.made r)) htells.next
  | count => exact congrArg (fun n => Except.ok (HeapReply.count n)) htells.size
  | get r =>
    rw [HeapOp.perform, Action.map_run, Action.heap_run, ← bind_pure (s.heap.get r), htells.get_eq r]
    rfl
  | getString r =>
    rw [HeapOp.perform, Action.map_run, Action.heap_run, Heap.getString, htells.get_eq r]
    refine congrArg (log.about r) (funext fun o => ?_)
    cases o <;> rfl
  | typeOf r =>
    rw [HeapOp.perform, Action.map_run, Action.heap_run, Heap.typeOf, htells.get_eq r]
    refine congrArg (log.about r) (funext fun o => ?_)
    cases o <;> rfl
  | getField r f =>
    rw [HeapOp.perform, Action.map_run, Action.heap_run, Heap.getField, htells.get_eq r]
    refine congrArg (log.about r) (funext fun o => ?_)
    cases o with
    | object => exact congrArg (fun v => Except.ok (HeapReply.field v)) (get?_fields log r f)
    | _ => rfl
  | setField r f v =>
    rw [HeapOp.perform, Action.map_run, Action.setField_fst, Heap.checkStore, htells.get_eq r]
    refine congrArg (log.about r) (funext fun o => ?_)
    cases o <;> rfl

end Tells

/-- The reply about an object with fields is no error where it is none for such objects, and an error about
everything else. -/
theorem about_isError_iff {r : HeapRef} {answer : HeapObject → Except Error HeapReply}
    (hobject : ∀ type fields, ∃ a, answer (.object type fields) = .ok a)
    (hother : ∀ o, (∀ type fields, o ≠ .object type fields) → ∃ e, answer o = .error e) :
    (∃ e, log.about r answer = .error e) ↔ ∀ type fields, log.object? r ≠ some (.object type fields) := by
  unfold about
  cases hr : log.object? r with
  | none => exact ⟨nofun, fun _ => ⟨_, rfl⟩⟩
  | some o =>
    constructor
    · rintro ⟨e, he⟩ type fields ho
      obtain rfl := Option.some.inj ho
      obtain ⟨a, ha⟩ := hobject type fields
      cases ha.symm.trans he
    · exact fun hne => hother o fun type fields ho => hne type fields (congrArg some ho)

end HeapLog

namespace HeapOp

theorem reply_isError_iff {log : HeapLog} {op : HeapOp} {r : HeapRef} {f : Token}
    (hop : op = .getField r f ∨ ∃ v, op = .setField r f v) :
    (∃ e, log.reply op = .error e) ↔ ∀ type fields, log.object? r ≠ some (.object type fields) := by
  rcases hop with rfl | ⟨v, rfl⟩
  all_goals
    refine HeapLog.about_isError_iff (fun _ _ => ⟨_, rfl⟩) fun o ho => ?_
    cases o with
    | object type fields => exact absurd rfl (ho type fields)
    | _ => exact ⟨_, rfl⟩

/-- An operation that fails leaves the machine as it is, and every operation leaves all but the heap. -/
theorem perform_frame {op : HeapOp} {s t : Machine} {reply : Except Error HeapReply}
    (h : op.perform.run.run s = (reply, t)) :
    (∀ e, reply = .error e → t = s) ∧ t = { s with heap := t.heap } := by
  rcases perform_cases h with ⟨o, -, rfl, rfl⟩ | ⟨r, f, v, type, fields, -, -, rfl, rfl⟩ | ⟨-, -, -, rfl⟩
  · exact ⟨nofun, rfl⟩
  · exact ⟨nofun, rfl⟩
  · exact ⟨fun _ _ => rfl, rfl⟩

/-- **The heap by its history.** After any operations that began on an empty heap, with any references in
them, the references that were given out are the first ones in ascending order, and the reply to one more
operation can be read off what happened: an object gets a number that no other has; under its number there is
what was made, with the last values that were stored in its fields; loading and storing fail exactly where no
object with fields was made. An operation that fails changes nothing. -/
theorem reply_of_history {ops : List HeapOp} {op : HeapOp} {s t u : Machine} {log : HeapLog}
    {reply : Except Error HeapReply} (hempty : s.heap = {}) (hops : history ops s = (log, t))
    (hop : op.perform.run.run t = (reply, u)) :
    log.refs = (List.range log.made.length).map (fun n => ⟨n + 1⟩)
    ∧ reply = log.reply op
    ∧ (∀ r, reply = .ok (.made r) → r ∉ log.refs)
    ∧ (∀ r f, (log.fields r).get? f = log.stored? r f)
    ∧ (∀ r f, (op = .getField r f ∨ ∃ v, op = .setField r f v) →
      ((∃ e, reply = .error e) ↔ ∀ type fields, log.object? r ≠ some (.object type fields)))
    ∧ (∀ e, reply = .error e → u = t)
    ∧ u = { t with heap := u.heap } := by
  have hstart : HeapLog.Tells [] s.heap := hempty ▸ HeapLog.tells_nil
  have htells : log.Tells t.heap := hstart.history hops
  have hreply := htells.reply_eq hop
  refine ⟨htells.refs, hreply, fun r hr hmem => ?_, log.get?_fields, fun r f hop' => ?_, perform_frame hop⟩
  · have hnext : r = ⟨log.made.length + 1⟩ := by
      rcases perform_cases hop with ⟨o, -, hmade, -⟩ | ⟨_, _, _, _, _, -, -, hstored, -⟩ | ⟨-, -, hnot, -⟩
      · rw [hr, htells.next] at hmade
        exact HeapReply.made.inj (Except.ok.inj hmade)
      · rw [hr] at hstored
        cases hstored
      · exact absurd hr (hnot r)
    rw [htells.refs, hnext] at hmem
    simp at hmem
  · rw [hreply]
    exact reply_isError_iff hop'

/-- A string and an object, with stores into both of them, into nothing, and into another field. -/
def nameAndNumber : List HeapOp :=
  [.makeString "Name", .makeObject ⟨0x02000001⟩, .setField ⟨2⟩ ⟨0x04000001⟩ (.int 7),
    .setField ⟨1⟩ ⟨0x04000001⟩ .null, .setField ⟨2⟩ ⟨0x04000001⟩ (.int 42), .setField ⟨999⟩ ⟨0x04000001⟩ .null,
    .setField ⟨2⟩ ⟨0x04000002⟩ (.ref ⟨1⟩)]

/-- The number that was stored last is loaded, and a string has no field to load from. -/
theorem reply_of_history_nameAndNumber :
    ∃ log t, history nameAndNumber {} = (log, t) ∧ log.refs = [⟨1⟩, ⟨2⟩]
      ∧ ((getField ⟨2⟩ ⟨0x04000001⟩).perform.run.run t).1 = .ok (.field (some (.int 42)))
      ∧ ((getField ⟨1⟩ ⟨0x04000001⟩).perform.run.run t)
        = (.error (.emulation (.loadFrom ⟨0x04000001⟩ "string")), t) := by
  obtain ⟨hrefs, hvalue, -⟩ := reply_of_history rfl (Prod.eta (history nameAndNumber {})).symm
    (Prod.eta ((getField ⟨2⟩ ⟨0x04000001⟩).perform.run.run _)).symm
  obtain ⟨-, herror, -, -, -, hsame, -⟩ := reply_of_history rfl (Prod.eta (history nameAndNumber {})).symm
    (Prod.eta ((getField ⟨1⟩ ⟨0x04000001⟩).perform.run.run _)).symm
  refine ⟨_, _, (Prod.eta _).symm, hrefs.trans (by decide), hvalue.trans (by decide), ?_⟩
  have hstring : HeapLog.reply (history nameAndNumber {}).1 (getField ⟨1⟩ ⟨0x04000001⟩)
      = .error (.emulation (.loadFrom ⟨0x04000001⟩ "string")) := by decide
  exact Prod.ext (herror.trans hstring) (hsame _ (herror.trans hstring))

end HeapOp

end SetterLoom
