import Mathlib.Data.List.Nodup
import SetterLoom.Proofs.Machine.Extends

/-!
# Machines up to the numbers of objects

A machine that makes objects of its own in between gives other numbers to the objects that follow. Two
such machines are alike if each object of the first one has an image among those of the second one, with
the same contents. The second machine may know more methods, and has more instructions left: for each
one that the first machine may still run, `scale` of its own.

* `Renaming.State.same`: a machine is like itself.
* `Renaming.likeness`: such machines stay alike.
* `Renaming.State.beside`: what the second one may do by itself.
-/

namespace SetterLoom

set_option autoImplicit false

/-- No two methods of the module have one token. -/
def Module.UniqueTokens (m : Module) : Prop :=
  ∀ i j d e, m.method? i = some d → m.method? j = some e → d.token = e.token → i = j

theorem Module.uniqueTokens_of_nodup {m : Module}
    (h : (m.methods.toList.map (Option.map Method.token)).Nodup) : m.UniqueTokens := by
  have hget : ∀ {i : MethodId} {d : Method}, m.method? i = some d →
      (m.methods.toList.map (Option.map Method.token))[i.index]? = some (some d.token) := by
    intro i d hd
    have ho := Option.join_eq_some_iff.mp hd
    rw [List.getElem?_map, Array.getElem?_toList, ho]
    rfl
  intro i j d e hd he htoken
  have hi := hget hd
  have hsame := (List.getElem?_inj (List.getElem?_eq_some_iff.mp hi).1 h).mp
    (hi.trans (htoken ▸ (hget he).symm))
  cases i
  cases j
  exact congrArg MethodId.mk hsame

namespace Renaming

/-- The images of the objects, in the order of their numbers, and how many instructions the second
machine has to spare. -/
structure World where
  images : List HeapRef
  spare : Nat

/-- The renamings. Code is free to do everything. -/
def worlds : Worlds where
  World := World
  le := fun w w' => w.images <+: w'.images ∧ w'.spare = w.spare
  refs := fun w r r' => r.id ≠ 0 ∧ w.images[r.id - 1]? = some r'
  storable := fun _ => True
  pointable := fun _ => True
  callable := fun _ => True

/-- The value, or an object made of it, stands for the other machine's value. -/
def Stands (w : World) (heap : Heap) (v v' : Value) : Prop :=
  worlds.Values w v v'
    ∨ ∃ q t u, v' = .ref q ∧ heap.get? q = some (.boxed t u) ∧ worlds.Values w v u

/-- The events tell the same; values before and after a change may be given as objects. -/
inductive Told (w : World) (heap : Heap) : TraceEvent → TraceEvent → Prop
  | event {e e' : TraceEvent} (h : worlds.Events w e e') : Told w heap e e'
  | notified {r r' : HeapRef} (property : String) {before before' after after' : Value}
    (h : worlds.refs w r r') (hbefore : Stands w heap before before')
    (hafter : Stands w heap after after') :
    Told w heap (.notified r property (some before) (some after))
      (.notified r' property (some before') (some after'))

/-- The two machines are alike up to the images of the objects, and since the news at their bases they
told the same. -/
structure State (m : Module) (scale : Nat) (base base' : List TraceEvent) (w : World)
    (s s' : Machine) : Prop where
  length : w.images.length = s.heap.size
  nodup : w.images.Nodup
  objects : ∀ r r' o, worlds.refs w r r' → s.heap.get? r = some o →
    ∃ o', s'.heap.get? r' = some o' ∧ worlds.Objects w o o'
  functions : ∀ k i, s.functions.get? k = some i → s'.functions.get? k = some i
  learned : ∀ k i, s'.functions.get? k = some i → ∃ d, m.method? i = some d ∧ d.token = k
  hooks : s'.hooks = s.hooks
  members : ∀ h ∈ s.hooks, ∃ member, h.action = .runtime member
  depth : s'.depth = s.depth
  news : ∃ told told', s.news = base ++ told ∧ s'.news = base' ++ told'
    ∧ List.Forall₂ (Told w s'.heap) told told'
  room : (s.limit - s.executed) * scale + w.spare ≤ s'.limit - s'.executed

theorem Stands.grow {w w' : World} {heap heap' : Heap} {v v' : Value} (h : Stands w heap v v')
    (hrefs : ∀ {r r'}, worlds.refs w r r' → worlds.refs w' r r')
    (hheap : ∀ q t u, heap.get? q = some (.boxed t u) → heap'.get? q = some (.boxed t u)) :
    Stands w' heap' v v' := by
  rcases h with h | ⟨q, t, u, rfl, hq, hu⟩
  · exact .inl (h.grow hrefs)
  · exact .inr ⟨q, t, u, rfl, hheap q t u hq, hu.grow hrefs⟩

theorem Told.grow {w w' : World} {heap heap' : Heap} {e e' : TraceEvent} (h : Told w heap e e')
    (hrefs : ∀ {r r'}, worlds.refs w r r' → worlds.refs w' r r')
    (hheap : ∀ q t u, heap.get? q = some (.boxed t u) → heap'.get? q = some (.boxed t u)) :
    Told w' heap' e e' := by
  cases h with
  | event h => exact .event (h.grow hrefs)
  | notified property h hbefore hafter =>
    exact .notified property (hrefs h) (hbefore.grow hrefs hheap) (hafter.grow hrefs hheap)

theorem refs_mono {w w' : World} (hle : worlds.le w w') {r r' : HeapRef}
    (h : worlds.refs w r r') : worlds.refs w' r r' := by
  obtain ⟨hpos, hr⟩ := h
  refine ⟨hpos, ?_⟩
  obtain ⟨more, hmore⟩ := hle.1
  rw [← hmore, List.getElem?_append_left (List.getElem?_eq_some_iff.mp hr).1, hr]

namespace State

variable {m : Module} {scale : Nat} {base base' : List TraceEvent} {w : World} {s s' t' : Machine}

theorem refs_eq_iff (h : State m scale base base' w s s') {a a' b b' : HeapRef}
    (ha : worlds.refs w a a') (hb : worlds.refs w b b') : a = b ↔ a' = b' := by
  obtain ⟨hapos, ha⟩ := ha
  obtain ⟨hbpos, hb⟩ := hb
  constructor
  · rintro rfl
    exact Option.some.inj (ha.symm.trans hb)
  · rintro rfl
    obtain ⟨hlt, hget⟩ := List.getElem?_eq_some_iff.mp ha
    obtain ⟨hlt', hget'⟩ := List.getElem?_eq_some_iff.mp hb
    have hsame := (h.nodup.getElem_inj_iff).mp (hget.trans hget'.symm)
    cases a
    cases b
    simp only at hsame hapos hbpos
    congr 1
    omega

theorem get?_image (h : State m scale base base' w s s') {r' : HeapRef} (hr : r' ∈ w.images) :
    ∃ o', s'.heap.get? r' = some o' := by
  obtain ⟨k, hk, rfl⟩ := List.getElem_of_mem hr
  have hsize : k < s.heap.objects.size := by
    have hlength : w.images.length = s.heap.objects.size := h.length
    omega
  obtain ⟨o', ho', -⟩ := h.objects ⟨k + 1⟩ w.images[k] s.heap.objects[k]
    ⟨Nat.succ_ne_zero k, List.getElem?_eq_getElem hk⟩ (by
      unfold Heap.get?
      rw [if_neg (Nat.succ_ne_zero k)]
      exact Array.getElem?_eq_getElem hsize)
  exact ⟨o', ho'⟩

theorem push (h : State m scale base base' w s s') {o o' : HeapObject}
    (ho : worlds.Objects w o o') :
    ∃ w', worlds.le w w' ∧ worlds.refs w' s.heap.next s'.heap.next
      ∧ State m scale base base' w' { s with heap := s.heap.push o }
        { s' with heap := s'.heap.push o' } := by
  let w' : World := { w with images := w.images ++ [s'.heap.next] }
  have hle : worlds.le w w' := ⟨List.prefix_append _ _, rfl⟩
  have hgrow : ∀ {r r'}, worlds.refs w r r' → worlds.refs w' r r' := refs_mono hle
  have hlength := h.length
  have hnew : worlds.refs w' s.heap.next s'.heap.next := by
    refine ⟨Nat.succ_ne_zero _, ?_⟩
    show (w.images ++ [s'.heap.next])[s.heap.objects.size + 1 - 1]? = some s'.heap.next
    rw [Nat.add_sub_cancel, ← show w.images.length = s.heap.objects.size from hlength,
      List.getElem?_concat_length]
  have hkept : ∀ q o₁, s'.heap.get? q = some o₁ → (s'.heap.push o').get? q = some o₁ := by
    intro q o₁ hq
    rw [Heap.get?_push_old s'.heap o' (Heap.get?_eq_some hq).2, hq]
  refine ⟨w', hle, hnew, ?_, ?_, ?_, h.functions, h.learned, h.hooks, h.members, h.depth, ?_,
    h.room⟩
  · show (w.images ++ [s'.heap.next]).length = (s.heap.push o).size
    rw [List.length_append, hlength, Heap.size_push]
    rfl
  · show (w.images ++ [s'.heap.next]).Nodup
    rw [List.nodup_append]
    refine ⟨h.nodup, List.nodup_singleton _, ?_⟩
    rintro a ha b hb rfl
    obtain ⟨o₁, ho₁⟩ := h.get?_image ha
    rw [List.mem_singleton.mp hb, Machine.get?_next] at ho₁
    cases ho₁
  · intro r r' o₁ hr ho₁
    have ho₁ : (s.heap.push o).get? r = some o₁ := ho₁
    show ∃ o₂, (s'.heap.push o').get? r' = some o₂ ∧ worlds.Objects w' o₁ o₂
    -- the object that is looked up is the new one, or was there before
    rcases Nat.lt_or_ge s.heap.size r.id with hlt | hge
    · have hid : r = s.heap.next := by
        have hbound := (Heap.get?_eq_some ho₁).2
        rw [Heap.size_push] at hbound
        cases r
        unfold Heap.next
        simp only [Heap.size] at hbound hlt
        congr 1
        omega
      subst hid
      rw [Heap.get?_push_new] at ho₁
      obtain rfl := Option.some.inj ho₁
      obtain rfl : s'.heap.next = r' := Option.some.inj (hnew.2.symm.trans hr.2)
      exact ⟨o', Heap.get?_push_new .., ho.grow hgrow⟩
    · rw [Heap.get?_push_old s.heap o hge] at ho₁
      have hold : worlds.refs w r r' := by
        refine ⟨hr.1, ?_⟩
        have hpos := hr.1
        have himage : (w.images ++ [s'.heap.next])[r.id - 1]? = some r' := hr.2
        rw [List.getElem?_append_left (by omega)] at himage
        exact himage
      obtain ⟨o₂, ho₂, hobjects⟩ := h.objects r r' o₁ hold ho₁
      exact ⟨o₂, hkept r' o₂ ho₂, hobjects.grow hgrow⟩
  · obtain ⟨told, told', hs, hs', htold⟩ := h.news
    exact ⟨told, told', hs, hs', htold.imp fun _ _ ht => ht.grow hgrow fun q t u => hkept q _⟩

theorem put (h : State m scale base base' w s s') {r r' : HeapRef} {f : Token} {v v' : Value}
    (hr : worlds.refs w r r') (hv : worlds.Values w v v')
    (ho : ∃ t fields, s.heap.get? r = some (.object t fields)) :
    State m scale base base' w { s with heap := s.heap.put r f v }
      { s' with heap := s'.heap.put r' f v' } := by
  obtain ⟨t, fields, ho⟩ := ho
  obtain ⟨o', ho', hobjects⟩ := h.objects r r' _ hr ho
  have hpos := (Heap.get?_eq_some ho).1
  have hpos' := (Heap.get?_eq_some ho').1
  refine ⟨?_, h.nodup, ?_, h.functions, h.learned, h.hooks, h.members, h.depth, ?_, h.room⟩
  · show w.images.length = (s.heap.put r f v).size
    rw [h.length]
    unfold Heap.put Heap.size
    rw [Array.size_modify]
  · intro q q' o hq hget
    have hget : (s.heap.put r f v).get? q = some o := hget
    show ∃ o', (s'.heap.put r' f v').get? q' = some o' ∧ worlds.Objects w o o'
    rw [Heap.get?_put s.heap r q f v hpos] at hget
    rw [Heap.get?_put s'.heap r' q' f v' hpos']
    -- references stand for each other one to one, so both stores
    -- change the same object or neither does
    by_cases heq : q = r
    · have heq' := (h.refs_eq_iff hq hr).mp heq
      subst heq heq'
      rw [if_pos rfl, ho] at hget
      rw [if_pos rfl, ho']
      obtain rfl := Option.some.inj hget
      cases hobjects with
      | object _ hfields =>
        refine ⟨_, rfl, .object t fun k => ?_⟩
        rw [TokenMap.get?_insert, TokenMap.get?_insert]
        split
        · exact .some hv
        · exact hfields k
    · have hne' : q' ≠ r' := fun heq' => heq ((h.refs_eq_iff hq hr).mpr heq')
      rw [if_neg heq] at hget
      rw [if_neg hne']
      exact h.objects q q' o hq hget
  · obtain ⟨told, told', hs, hs', htold⟩ := h.news
    refine ⟨told, told', hs, hs', htold.imp fun _ _ ht => ht.grow (fun h => h) fun q t u hq => ?_⟩
    show (s'.heap.put r' f v').get? q = _
    rw [Heap.get?_put s'.heap r' q f v' hpos']
    split
    · rw [hq]
      rfl
    · exact hq

theorem record (h : State m scale base base' w s s') {e e' : TraceEvent}
    (he : worlds.Events w e e') :
    State m scale base base' w { s with trace := s.trace.push e }
      { s' with trace := s'.trace.push e' } := by
  refine ⟨h.length, h.nodup, h.objects, h.functions, h.learned, h.hooks, h.members, h.depth, ?_,
    h.room⟩
  obtain ⟨told, told', hs, hs', htold⟩ := h.news
  have hnews : ∀ (s : Machine) (e : TraceEvent),
      ({ s with trace := s.trace.push e } : Machine).news
        = s.news ++ [e].filter TraceEvent.isNews := by
    intro s e
    unfold Machine.news
    dsimp only
    rw [Array.toList_push, List.filter_append]
  refine ⟨told ++ [e].filter TraceEvent.isNews, told' ++ [e'].filter TraceEvent.isNews, ?_, ?_, ?_⟩
  · rw [hnews, hs, List.append_assoc]
  · rw [hnews, hs', List.append_assoc]
  · refine List.rel_append htold ?_
    have htell : Told w s'.heap e e' := .event he
    cases he with
    | called name => exact .nil
    | notified => exact .cons htell .nil
    | subscribed => exact .cons htell .nil
    | unsubscribed => exact .cons htell .nil

theorem know (h : State m scale base base' w s s') (hunique : m.UniqueTokens) {i : MethodId}
    {d : Method} (hd : m.method? i = some d) :
    State m scale base base' w { s with functions := s.functions.insertNew d.token i }
      { s' with functions := s'.functions.insertNew d.token i } := by
  refine ⟨h.length, h.nodup, h.objects, fun k j hk => ?_, fun k j hk => ?_, h.hooks, h.members,
    h.depth, h.news, h.room⟩
  · have hk : (s.functions.insertNew d.token i).get? k = some j := hk
    show (s'.functions.insertNew d.token i).get? k = some j
    rw [TokenMap.get?_insertNew] at hk ⊢
    split at hk
    · rename_i heq
      rw [if_pos heq]
      -- the second machine may know the token already, but then by the same method
      cases hknown : s.functions.get? d.token with
      | some i₀ =>
        rw [h.functions _ _ hknown]
        rw [hknown] at hk
        exact hk
      | none =>
        rw [hknown, Option.getD_none] at hk
        cases hknown' : s'.functions.get? d.token with
        | none => exact hk
        | some i' =>
          obtain ⟨d', hd', htoken⟩ := h.learned _ _ hknown'
          rw [Option.getD_some, hunique i' i d' d hd' hd htoken]
          exact hk
    · rename_i hne
      rw [if_neg hne]
      exact h.functions k j hk
  · have hk : (s'.functions.insertNew d.token i).get? k = some j := hk
    rw [TokenMap.get?_insertNew] at hk
    split at hk
    · rename_i heq
      cases hknown' : s'.functions.get? d.token with
      | none =>
        rw [hknown', Option.getD_none] at hk
        obtain rfl := Option.some.inj hk
        exact ⟨d, hd, heq.symm⟩
      | some i' =>
        rw [hknown', Option.getD_some] at hk
        obtain rfl := Option.some.inj hk
        exact h.learned k i' (heq ▸ hknown')
    · exact h.learned k j hk

theorem load (h : State m scale base base' w s s') {i : MethodId} {d : Method}
    (hd : m.method? i = some d) :
    State m scale base base' w { s with functions := s.functions.insert d.token i }
      { s' with functions := s'.functions.insert d.token i } := by
  refine ⟨h.length, h.nodup, h.objects, fun k j hk => ?_, fun k j hk => ?_, h.hooks, h.members,
    h.depth, h.news, h.room⟩
  · have hk : (s.functions.insert d.token i).get? k = some j := hk
    show (s'.functions.insert d.token i).get? k = some j
    rw [TokenMap.get?_insert] at hk ⊢
    split at hk
    · rename_i heq
      rw [if_pos heq, hk]
    · rename_i hne
      rw [if_neg hne]
      exact h.functions k j hk
  · have hk : (s'.functions.insert d.token i).get? k = some j := hk
    rw [TokenMap.get?_insert] at hk
    split at hk
    · rename_i heq
      obtain rfl := Option.some.inj hk
      exact ⟨d, hd, heq.symm⟩
    · exact h.learned k j hk

private theorem respare (h : State m scale base base' w s s') {spare executed executed' : Nat}
    (hroom : (s.limit - executed) * scale + spare ≤ s'.limit - executed') :
    State m scale base base' { w with spare } { s with executed } { s' with executed := executed' } where
  length := h.length
  nodup := h.nodup
  objects := fun r r' o hr ho => by
    obtain ⟨o', ho', hobjects⟩ := h.objects r r' o hr ho
    have hrefs : ∀ {r r'}, worlds.refs w r r' → worlds.refs { w with spare } r r' := fun h => h
    have hgrown : worlds.Objects { w with spare } o o' := Worlds.Objects.grow hrefs hobjects
    exact ⟨o', ho', hgrown⟩
  functions := h.functions
  learned := h.learned
  hooks := h.hooks
  members := h.members
  depth := h.depth
  news := by
    obtain ⟨told, told', hs, hs', htold⟩ := h.news
    exact ⟨told, told', hs, hs', htold.imp fun _ _ ht => ht.grow (fun h => h) fun _ _ _ hq => hq⟩
  room := hroom

/-- An instruction of both machines gives the second one some to spare. -/
theorem count (h : State m scale base base' w s s') (hscale : 1 ≤ scale)
    (hlimit : s.executed < s.limit) :
    s'.executed < s'.limit ∧ State m scale base base' { w with spare := w.spare + (scale - 1) }
      { s with executed := s.executed + 1 } { s' with executed := s'.executed + 1 } := by
  have hroom := h.room
  obtain ⟨left, hleft⟩ : ∃ n, s.limit - s.executed = n + 1 := ⟨s.limit - s.executed - 1, by omega⟩
  have hnext : s.limit - (s.executed + 1) = left := by omega
  rw [hleft, Nat.add_mul, Nat.one_mul] at hroom
  refine ⟨by omega, h.respare ?_⟩
  rw [hnext]
  omega

theorem spend (h : State m scale base base' w s s') {spare : Nat} (hle : spare ≤ w.spare) :
    State m scale base base' { w with spare } s s' := by
  have hroom := h.room
  exact h.respare (by omega)

theorem nested (h : State m scale base base' w s s') {n n' : Nat} (hn : n' = n) :
    State m scale base base' w { s with depth := n } { s' with depth := n' } :=
  ⟨h.length, h.nodup, h.objects, h.functions, h.learned, h.hooks, h.members, hn, h.news, h.room⟩

/-- What the second machine does by itself is paid from what it has to spare, and the first one is told
the news. -/
theorem beside (h : State m scale base base' w s s') {cost : Nat} {events events' : List TraceEvent}
    (told : Array TraceEvent) (hextends : s'.Extends m t' events')
    (hcost : t'.executed ≤ s'.executed + cost) (hspare : cost ≤ w.spare)
    (htold : ({ s with trace := told } : Machine).news = s.news ++ events)
    (hevents : List.Forall₂ (Told w t'.heap) events events') :
    State m scale base base' { w with spare := w.spare - cost } { s with trace := told } t' := by
  have hroom := h.room
  have hlimit := hextends.limit
  have hpaid : State m scale base base' { w with spare := w.spare - cost } s
      { s' with executed := t'.executed } := h.respare (by omega)
  refine ⟨h.length, h.nodup, fun r r' o hr ho => ?_,
    fun k i hk => hextends.functions k i (h.functions k i hk), fun k i hk => ?_,
    hextends.hooks.trans h.hooks, h.members, hextends.depth.trans h.depth, ?_, ?_⟩
  · obtain ⟨o', ho', hobjects⟩ := hpaid.objects r r' o hr ho
    exact ⟨o', hextends.heap r' o' ho', hobjects⟩
  · rcases hextends.learned k i hk with hold | hnew
    · exact h.learned k i hold
    · exact hnew
  · obtain ⟨old, old', hs, hs', hsame⟩ := h.news
    refine ⟨old ++ events, old' ++ events', ?_, ?_, List.rel_append ?_ ?_⟩
    · rw [htold, hs, List.append_assoc]
    · rw [hextends.news, hs', List.append_assoc]
    · exact hsame.imp fun _ _ ht => ht.grow (fun h => h) fun q t u hq => hextends.heap q _ hq
    · exact hevents.imp fun _ _ ht => ht.grow (fun h => h) fun _ _ _ hq => hq
  · show (s.limit - s.executed) * scale + (w.spare - cost) ≤ t'.limit - t'.executed
    omega

end State

/-! ## A machine and itself -/

/-- Every object of the heap is its own image. -/
def World.same (heap : Heap) (spare : Nat) : World :=
  ⟨(List.range heap.size).map fun k => ⟨k + 1⟩, spare⟩

theorem refs_same {heap : Heap} {spare : Nat} {r r' : HeapRef} :
    worlds.refs (.same heap spare) r r' ↔ r' = r ∧ r.id ≠ 0 ∧ r.id ≤ heap.size := by
  show (r.id ≠ 0 ∧ ((List.range heap.size).map fun k => (⟨k + 1⟩ : HeapRef))[r.id - 1]? = some r')
    ↔ _
  rw [List.getElem?_map]
  constructor
  · rintro ⟨hpos, hr⟩
    obtain ⟨k, hk, hr'⟩ := Option.map_eq_some_iff.mp hr
    obtain ⟨hlt, hget⟩ := List.getElem?_eq_some_iff.mp hk
    rw [List.getElem_range] at hget
    rw [List.length_range] at hlt
    refine ⟨?_, hpos, by omega⟩
    rw [← hr', ← hget]
    cases r
    simp only at hpos ⊢
    congr 1
    omega
  · rintro ⟨rfl, hpos, hle⟩
    refine ⟨hpos, ?_⟩
    rw [List.getElem?_range (by omega), Option.map_some]
    cases r'
    simp only at hpos ⊢
    congr 2
    omega

/-- All references in the machine are to objects, it knows methods of the module by their tokens, and its
hooks only answer for members of the runtime. -/
structure Sound (m : Module) (s : Machine) : Prop where
  objects : ∀ r o, s.heap.get? r = some o → worlds.Objects (.same s.heap 0) o o
  learned : ∀ k i, s.functions.get? k = some i → ∃ d, m.method? i = some d ∧ d.token = k
  members : ∀ h ∈ s.hooks, ∃ member, h.action = .runtime member

theorem State.same {m : Module} {scale spare limit : Nat} {s : Machine} (h : Sound m s)
    (hroom : (s.limit - s.executed) * scale + spare ≤ limit - s.executed) :
    State m scale s.news s.news (.same s.heap spare) s { s with limit } where
  length := by
    show ((List.range s.heap.size).map _).length = _
    rw [List.length_map, List.length_range]
  nodup := by
    refine List.Nodup.map (fun k k' hk => ?_) List.nodup_range
    exact Nat.succ.inj (congrArg HeapRef.id hk)
  objects := fun r r' o hr ho => by
    obtain ⟨rfl, -⟩ := refs_same.mp hr
    refine ⟨o, ho, (h.objects r' o ho).grow fun hq => ?_⟩
    exact refs_same.mpr (refs_same.mp hq)
  functions := fun _ _ hk => hk
  learned := h.learned
  hooks := rfl
  members := h.members
  depth := rfl
  news := ⟨[], [], (List.append_nil _).symm, (List.append_nil _).symm, .nil⟩
  room := hroom

/-- Machines that are alike up to the images of the objects stay so. -/
def likeness {m m' : Module} (hmodules : m.Alike m') (hunique : m.UniqueTokens) {scale : Nat}
    (hscale : 1 ≤ scale) (base base' : List TraceEvent) : Likeness m m' where
  toWorlds := worlds
  modules := hmodules
  state := State m scale base base'
  le_refl := fun w => ⟨List.prefix_refl _, rfl⟩
  le_trans := fun h h' => ⟨h.1.trans h'.1, h'.2.trans h.2⟩
  refs_mono := fun hle h => refs_mono hle h
  refs_eq_iff := fun hs ha hb => hs.refs_eq_iff ha hb
  lookup := fun hs hr ho => hs.objects _ _ _ hr ho
  push := fun hs ho _ _ => hs.push ho
  put := fun hs hr _ hv ho => hs.put hr hv ho
  record := fun hs he => hs.record he
  know := fun hs _ hd => hs.know hunique hd
  load := fun hs _ hd => hs.load hd
  known := fun hs _ hk => ⟨hs.functions _ _ hk, trivial⟩
  hooks := State.hooks
  depth := State.depth
  room := fun {w s s'} hs => by
    have hroom := hs.room
    have hle := Nat.le_mul_of_pos_right (s.limit - s.executed) hscale
    omega
  nest := fun {w s s'} hs => by
    refine ⟨w, fun h => h, hs.nested (congrArg (· + 1) hs.depth), fun {w₂ t t'} hle ht => ?_⟩
    exact ⟨w₂, hle, fun h => h, ht.nested (congrArg (· - 1) ht.depth)⟩
  count := fun {w s s'} hs hlimit => by
    obtain ⟨hlimit', hcounted⟩ := hs.count hscale hlimit
    exact ⟨hlimit', hcounted.spend (Nat.le_add_right _ _)⟩
  answers := fun hs hh haction => by
    obtain ⟨member, hmember⟩ := hs.members _ hh
    rw [hmember] at haction
    cases haction
  subscribes := fun _ _ _ _ _ _ _ _ => trivial
  dispatched := fun _ _ _ _ => trivial
  constructors := fun _ _ => trivial

end Renaming

end SetterLoom
