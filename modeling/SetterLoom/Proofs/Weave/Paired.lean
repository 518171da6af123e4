import SetterLoom.Proofs.Machine.Renaming
import SetterLoom.Proofs.Machine.Telling
import SetterLoom.Proofs.Weave.Plain

/-!
# Running a setter before and after weaving

Where nothing but notifications is woven, a woven setter does what the setter did before and announces the
promised targets behind each store that control falls through from, as long as the object has no handlers
then. The two runs go hand in hand: each instruction of the unedited body is run by both, and at an anchor
the woven one runs its block.

* `Pairing`: what the two runs have in common.
* `Pairing.does_paired`, `Pairing.notifies_paired`: an instruction of the unedited body, and a block at an
  anchor.
* `Pairing.ends_paired`: the two runs.
-/

namespace SetterLoom
set_option autoImplicit false

/-- The value of a field of an object. -/
def Heap.held (heap : Heap) (m : Module) (r : HeapRef) (field : Field) : Value :=
  match heap.get? r with
  | some (.object _ fields) => (fields.get? field.token).getD (m.defaultOf field.type)
  | _ => .null

namespace BlockContext

/-- The announcements of the promised targets, with the values of their fields in the two heaps if the
invoker takes values. -/
def announcements (ctx : BlockContext) (m : Module) (this : HeapRef) (fieldOf : String → Field)
    (entry heap : Heap) : List TraceEvent :=
  ctx.promised.map fun t => .notified this t.name
    (ctx.type.invoker.valueForm?.map fun _ => entry.held m this (fieldOf t.name))
    (ctx.type.invoker.valueForm?.map fun _ => heap.held m this (fieldOf t.name))

theorem news_announcements (ctx : BlockContext) (m : Module) (this : HeapRef) (fieldOf : String → Field)
    (entry heap : Heap) (s : Machine) :
    ({ s with trace := s.trace ++ (ctx.announcements m this fieldOf entry heap).toArray } : Machine).news
      = s.news ++ ctx.announcements m this fieldOf entry heap := by
  have hnews : (ctx.announcements m this fieldOf entry heap).filter TraceEvent.isNews
      = ctx.announcements m this fieldOf entry heap := by
    refine List.filter_eq_self.mpr fun e he => ?_
    obtain ⟨t, -, rfl⟩ := List.mem_map.mp he
    rfl
  unfold Machine.news
  rw [Array.toList_append, List.filter_append, List.toList_toArray, hnews]

theorem mem_storedSlots_targets {ctx : BlockContext} {before : String → Bool → UInt16}
    {pairs : List (Property × AfterSlots)} {i : UInt16}
    (hi : i ∈ storedSlots (pairs.flatMap fun t => ctx.announceOps t.1 before t.2.call)) :
    ∃ t ∈ pairs, i = t.2.call ∧ ctx.type.invoker.valueForm?.isSome := by
  obtain ⟨op, hop, hslot⟩ := List.mem_filterMap.mp hi
  obtain ⟨t, ht, hopt⟩ := List.mem_flatMap.mp hop
  exact ⟨t, ht, eq_of_mem_storedSlots_announceOps (List.mem_filterMap.mpr ⟨op, hopt, hslot⟩)⟩

end BlockContext

/-- Stores behind the slots of the first frame leave the two frames alike. -/
theorem Likeness.Frames.beside {m m' : Module} {L : Likeness m m'} {w : L.World} {rest : List Value}
    {f f' g' : Frame} {stored : List UInt16} (h : L.Frames w rest f f') (hbeside : f'.Beside stored g')
    (hbehind : ∀ i ∈ stored, f.slots.length ≤ i.toNat) :
    ∃ rest', L.Frames w rest' f g' ∧ rest'.length = rest.length := by
  obtain ⟨slots, hslots, hrel⟩ := h.slots
  have hlength : slots.length = f.slots.length := hrel.length_eq.symm
  have hfront : g'.slots.take f.slots.length = slots := by
    refine List.ext_getElem? fun k => ?_
    rcases Nat.lt_or_ge k f.slots.length with hlt | hge
    · have hkept : g'.slots[k]? = f'.slots[k]? := hbeside.slots k fun i hi heq => by
        have hle := hbehind i hi
        omega
      rw [List.getElem?_take_of_lt hlt, hkept, hslots, List.getElem?_append_left (hlength ▸ hlt)]
    · rw [List.getElem?_take_eq_none hge, List.getElem?_eq_none (hlength ▸ hge)]
  refine ⟨g'.slots.drop f.slots.length, ⟨hbeside.arguments ▸ h.arguments, ⟨slots, ?_, hrel⟩,
    hbeside.stack ▸ h.stack⟩, ?_⟩
  · rw [← hfront, List.take_append_drop]
  · rw [List.length_drop, hbeside.length, hslots, List.length_append, hlength, Nat.add_sub_cancel_left]

/-- Two runs of a setter on one object: that of the unedited body, whose calls never come to the setter
again, and that of the woven one. -/
structure Pairing where
  m : Module
  m' : Module
  alike : m.Alike m'
  unique : m.UniqueTokens
  d : Method
  d' : Method
  signature : d'.signature = d.signature
  setter : MethodId
  bodies : ∀ i, i ≠ setter → ∀ e e', m.method? i = some e → m'.method? i = some e' →
    e'.body = e.body
  bound : Nat
  bound' : Nat
  bound_le : bound ≤ bound' + 1
  ctx : BlockContext
  this : HeapRef
  type : Token
  hooks : HookTable
  fieldOf : String → Field
  ready : ctx.Ready m' hooks type fieldOf
  entry : Heap
  before : String → Bool → UInt16
  held : String → Value
  /-- The number of slots of the unedited body, and of those that were added. -/
  first : Nat
  count : Nat
  /-- The news of the two machines at the start. -/
  base : List TraceEvent
  base' : List TraceEvent

namespace Pairing

variable (P : Pairing)

/-- The setter before weaving. -/
def old : Site := ⟨P.m, P.d⟩

/-- The setter after weaving. -/
def new : Site := ⟨P.m', P.d'⟩

/-- The calls of the unedited body. -/
def call : Call := Action.invokeAvoiding P.m P.setter P.bound

/-- The calls of the woven body. -/
def call' : Call := Action.invokeAt P.m' (P.bound' + 1)

/-- The number of instructions that the woven body may run for one of the unedited body. -/
def scale : Nat := 16 * P.ctx.promised.length + 1

/-- The two machines are alike up to the numbers of the objects. -/
def likeness : Likeness P.m P.m' :=
  Renaming.likeness P.alike P.unique (Nat.le_add_left 1 (16 * P.ctx.promised.length)) P.base P.base'

/-- The two machines are alike, and the receiver is an object of its type. -/
structure Machines (w : Renaming.World) (s s' : Machine) : Prop where
  state : P.likeness.state w s s'
  receiver : Renaming.worlds.refs w P.this P.this
  object : ∃ fields, s'.heap.get? P.this = some (.object P.type fields)
  hooks : s'.hooks = P.hooks
  depth : s'.depth < maxDepth
  stands : ∀ t ∈ P.ctx.promised, P.ctx.type.invoker.valueForm?.isSome →
    Renaming.Stands w s'.heap (P.entry.held P.m P.this (P.fieldOf t.name)) (P.held t.name)

/-- The two frames belong together, and the slots of the woven one that are not of the unedited body hold
the values before the change. -/
structure Frames (w : Renaming.World) (f f' : Frame) : Prop where
  frames : ∃ rest, P.likeness.Frames w rest f f' ∧ rest.length = P.count
  slots : f.slots.length = P.first
  this : f.arguments[0]? = some (.ref P.this)
  held : ∀ t ∈ P.ctx.promised, ∀ boxed, P.ctx.type.invoker.valueForm? = some boxed →
    P.first ≤ (P.before t.name boxed).toNat
      ∧ f'.slots[(P.before t.name boxed).toNat]? = some (P.held t.name)

variable {P} {w : Renaming.World} {s s' t : Machine} {f f' : Frame}

theorem calls (P : Pairing) : P.likeness.Calls P.call P.call' := by
  refine Likeness.calls_invokeAvoiding (fun call call' i hcalls _ hi => ?_) P.bound_le
  exact Likeness.bodies_of_same hcalls (P.bodies i hi) fun op =>
    ⟨fun _ _ _ => trivial, fun _ _ => trivial, fun _ _ _ _ _ => trivial⟩

theorem Machines.later {w' : Renaming.World} {t' : Machine} (h : P.Machines w s s')
    (hstate : P.likeness.state w' t t') (himages : w.images <+: w'.images) (hlater : s'.Later t')
    (hdepth : t'.depth = s'.depth) : P.Machines w' t t' := by
  have hrefs : ∀ {r r'}, Renaming.worlds.refs w r r' → Renaming.worlds.refs w' r r' := by
    rintro r r' ⟨hpos, hr⟩
    obtain ⟨more, hmore⟩ := himages
    refine ⟨hpos, ?_⟩
    rw [← hmore, List.getElem?_append_left (List.getElem?_eq_some_iff.mp hr).1, hr]
  refine ⟨hstate, hrefs h.receiver, ?_, hlater.hooks.trans h.hooks, hdepth ▸ h.depth,
    fun t ht hform => (h.stands t ht hform).grow hrefs fun q u v hq => ?_⟩
  · obtain ⟨fields, hobject⟩ := h.object
    obtain ⟨o', ho', hkept⟩ := hlater.objects _ _ hobject
    cases hkept with
    | same => exact ⟨fields, ho'⟩
    | stored _ _ fields' => exact ⟨fields', ho'⟩
  · obtain ⟨o', ho', hkept⟩ := hlater.objects _ _ hq
    cases hkept
    exact ho'

/-- The two runs go on in the same way. -/
inductive Ways (P : Pairing) (w : Renaming.World) : Step → Step → Prop
  | next {g g' : Frame} (h : P.Frames w g g') : Ways P w (.next g) (.next g')
  | jump (l : Label) {g g' : Frame} (h : P.Frames w g g') : Ways P w (.jump l g) (.jump l g')
  | done {v v' : Value} (h : P.likeness.Values w v v') : Ways P w (.done v) (.done v')

private theorem Frames.next {w' : Renaming.World} {rest : List Value} {g g' : Frame}
    (h : P.Frames w f f') (hframes : P.likeness.Frames w rest f f') (hlength : rest.length = P.count)
    (hg : P.likeness.Frames w' rest g g') (hkept : f.Kept g) : P.Frames w' g g' := by
  refine ⟨⟨rest, hg, hlength⟩, hkept.slots.trans h.slots, hkept.arguments ▸ h.this,
    fun t ht boxed hform => ?_⟩
  obtain ⟨hle, hheld⟩ := h.held t ht boxed hform
  refine ⟨hle, ?_⟩
  obtain ⟨slots, hslots, hrel⟩ := hframes.slots
  obtain ⟨slots', hslots', hrel'⟩ := hg.slots
  have hfirst : slots.length = P.first := hrel.length_eq ▸ h.slots
  have hfirst' : slots'.length = P.first := hrel'.length_eq ▸ hkept.slots.trans h.slots
  rw [hslots, List.getElem?_append_right (hfirst ▸ hle), hfirst] at hheld
  rw [hslots', List.getElem?_append_right (hfirst' ▸ hle), hfirst', hheld]

theorem does_paired (hm : P.Machines w s s') (hf : P.Frames w f f') {op : Op} {way : Step}
    (hdoes : P.old.Does P.call op f s way t) :
    ∃ w₁ way' t', w.images <+: w₁.images
      ∧ w₁.spare = w.spare + 16 * P.ctx.promised.length
      ∧ P.Machines w₁ t t' ∧ P.new.Does P.call' op f' s' way' t' ∧ P.Ways w₁ way way' := by
  obtain ⟨rest, hframes, hlength⟩ := hf.frames
  obtain ⟨hlimit', hcounted⟩ := Renaming.State.count hm.state
    (Nat.le_add_left 1 (16 * P.ctx.promised.length)) hdoes.1
  have hallowed : P.likeness.Allowed op :=
    ⟨fun _ _ _ => trivial, fun _ _ => trivial, fun _ _ _ _ _ => trivial⟩
  let w₀ : Renaming.World := { w with spare := w.spare + 16 * P.ctx.promised.length }
  have hsame : ∀ {r r'}, P.likeness.refs w r r' → P.likeness.refs w₀ r r' := fun h => h
  have hframes₀ : P.likeness.Frames w₀ rest f f' := hframes.of_refs hsame
  obtain ⟨w₁, way', t', hle, hstate, hstep, hway⟩ := Likeness.like_step P.calls P.signature
    hallowed hframes₀ hcounted hdoes.2
  have hdoes' : P.new.Does P.call' op f' s' way' t' := ⟨hlimit', hstep⟩
  obtain ⟨hlater, hdepth, -⟩ := later_does hdoes'
  refine ⟨w₁, way', t', hle.1, hle.2, hm.later hstate hle.1 hlater hdepth, hdoes', ?_⟩
  cases hway with
  | next hg => exact .next (hf.next hframes hlength hg hdoes.kept_of_next)
  | jump l hg => exact .jump l (hf.next hframes hlength hg hdoes.kept_of_jump)
  | done hv => exact .done hv

theorem Machines.unheard (h : P.Machines w s s') (hunheard : s.Unheard P.m P.this) :
    s'.Unheard P.m' P.this := by
  obtain ⟨type, fields, hobject, hnone⟩ := hunheard
  obtain ⟨o', ho', hobjects⟩ := h.state.objects _ _ _ h.receiver hobject
  have hfield : P.m'.eventField? type = P.m.eventField? type := by
    unfold Module.eventField?
    rw [P.alike.registry]
    congr 1
    funext t
    exact P.alike.fieldInLine? t _
  cases hobjects with
  | object _ hfields =>
    refine ⟨type, _, ho', fun f hf q hq => ?_⟩
    rw [hfield] at hf
    have hrel := hfields f.token
    rw [hq] at hrel
    cases hstored : fields.get? f.token with
    | none =>
      rw [hstored] at hrel
      cases hrel
    | some v =>
      rw [hstored] at hrel
      cases hrel with
      | some hv =>
        cases hv with
        | ref => exact hnone f hf _ hstored

theorem stands_of_shows {heap : Heap} {m : Module} {type : TypeId} {boxed : Bool} {u v v' : Value}
    (hv : Renaming.worlds.Values w u v) (hshows : heap.Shows m type boxed v v') :
    Renaming.Stands w heap u v' := by
  unfold Heap.Shows at hshows
  split at hshows
  · obtain ⟨q, rfl, hq⟩ := hshows
    exact .inr ⟨q, _, _, rfl, hq, hv⟩
  · rw [hshows]
    exact .inl hv

theorem values_held {heap : Heap} {r : HeapRef} {type : Token} {fields fields' : TokenMap Value}
    (hr : heap.get? r = some (.object type fields))
    (hfields : ∀ k, Option.Rel (Renaming.worlds.Values w) (fields.get? k) (fields'.get? k))
    (field : Field) :
    Renaming.worlds.Values w (heap.held P.m r field) (P.new.fieldValue fields' field) := by
  have hstored := hfields field.token
  unfold Heap.held Site.fieldValue
  simp only [hr]
  generalize fields.get? field.token = stored at hstored ⊢
  generalize fields'.get? field.token = stored' at hstored ⊢
  cases hstored with
  | none => exact Likeness.values_defaultOf (L := P.likeness) _
  | some hv => exact hv

private theorem told_announcement (hm : P.Machines w s s') {fields : TokenMap Value}
    (hobject : s'.heap.get? P.this = some (.object P.type fields)) {heap : Heap}
    (hheap : ∀ r o, s'.heap.get? r = some o → heap.get? r = some o)
    (hunheard : s.Unheard P.m P.this) {target : Property} (htarget : target ∈ P.ctx.promised)
    {e : TraceEvent}
    (htells : P.ctx.Tells P.new heap P.this P.held fields P.fieldOf target e) :
    Renaming.Told w heap (.notified P.this target.name
      (P.ctx.type.invoker.valueForm?.map fun _ => P.entry.held P.m P.this (P.fieldOf target.name))
      (P.ctx.type.invoker.valueForm?.map fun _ => s.heap.held P.m P.this (P.fieldOf target.name)))
      e := by
  obtain ⟨after, rfl, hshows⟩ := htells
  cases hform : P.ctx.type.invoker.valueForm? with
  | none => exact .event (.notified target.name hm.receiver .none .none)
  | some boxed =>
    have hbefore := hm.stands target htarget (by rw [hform]; rfl)
    refine .notified target.name hm.receiver
      (hbefore.grow (fun h => h) fun q _ _ hq => hheap q _ hq) ?_
    obtain ⟨type, fields₀, hobject₀, -⟩ := hunheard
    obtain ⟨o', ho', hobjects⟩ := hm.state.objects _ _ _ hm.receiver hobject₀
    rw [hobject] at ho'
    obtain rfl := Option.some.inj ho'
    cases hobjects with
    | object _ hfields =>
      exact stands_of_shows (values_held hobject₀ hfields _) (hshows boxed hform)

theorem Frames.receiver (hf : P.Frames w f f') (hm : P.Machines w s s') :
    f'.arguments[0]? = some (.ref P.this) := by
  obtain ⟨rest, hframes, -⟩ := hf.frames
  have hargument := Likeness.getElem?_rel hframes.arguments 0
  rw [hf.this] at hargument
  cases hargument' : f'.arguments[0]? with
  | none =>
    rw [hargument'] at hargument
    cases hargument
  | some v =>
    rw [hargument'] at hargument
    cases hargument with
    | some hv =>
      cases hv with
      | ref hr => rw [(Renaming.State.refs_eq_iff hm.state hr hm.receiver).mp rfl]

theorem Frames.length (hf : P.Frames w f f') : f'.slots.length = P.first + P.count := by
  obtain ⟨rest, hframes, hlength⟩ := hf.frames
  obtain ⟨slots, hslots, hrel⟩ := hframes.slots
  rw [hslots, List.length_append, ← hrel.length_eq, hf.slots, hlength]

private theorem Machines.extend {w' : Renaming.World} {u' : Machine} {trace : Array TraceEvent}
    {events : List TraceEvent} (hm : P.Machines w s s')
    (hstate : P.likeness.state w' { s with trace } u') (himages : w'.images = w.images)
    (hextends : s'.Extends P.m' u' events) : P.Machines w' { s with trace } u' := by
  have hrefs : ∀ {r r'}, Renaming.worlds.refs w r r' → Renaming.worlds.refs w' r r' :=
    fun ⟨hpos, hr⟩ => ⟨hpos, himages ▸ hr⟩
  obtain ⟨fields, hobject⟩ := hm.object
  exact ⟨hstate, hrefs hm.receiver, ⟨fields, hextends.heap _ _ hobject⟩, hextends.hooks.trans hm.hooks,
    hextends.depth ▸ hm.depth,
    fun t ht hform => (hm.stands t ht hform).grow hrefs fun q _ _ hq => hextends.heap q _ hq⟩

/-- At an anchor the woven run announces the promised targets by itself. -/
theorem notifies_paired (hm : P.Machines w s s') (hf : P.Frames w f f')
    (hunheard : s.Unheard P.m P.this) (hspare : 16 * P.ctx.promised.length ≤ w.spare)
    {ops : List Op} (hops : P.ctx.Notifies P.before P.first P.count ops) :
    ∃ g' u', P.new.Runs P.call' ops f' s' g' u'
      ∧ P.Machines { w with spare := w.spare - 16 * P.ctx.promised.length }
        { s with trace := s.trace
          ++ (P.ctx.announcements P.m P.this P.fieldOf P.entry s.heap).toArray } u'
      ∧ P.Frames { w with spare := w.spare - 16 * P.ctx.promised.length } f g' := by
  obtain ⟨pairs, hpairs, rfl, hinside, hapart⟩ := hops
  obtain ⟨fields, hobject⟩ := hm.object
  have hmem : ∀ t ∈ pairs, t.1 ∈ P.ctx.promised := fun t ht =>
    hpairs ▸ List.mem_map_of_mem ht
  have hcount : pairs.length = P.ctx.promised.length := by rw [← hpairs, List.length_map]
  have hheld : P.ctx.AllHeld P.before P.held pairs f' := by
    refine ⟨fun t ht => (List.mem_filter.mp (hmem t ht)).1,
      fun t ht boxed hform => (hf.held t.1 (hmem t ht) boxed hform).2,
      fun t ht hform => hf.length ▸ (hinside t ht hform).2, hapart⟩
  have hroom := hm.state.room
  obtain ⟨g', u', events, hruns, hbeside, hextends, hcost, htells⟩ :=
    BlockContext.runs_targets P.bound' (c := P.new) (hm.hooks ▸ P.ready) hobject (hm.unheard hunheard)
      (hf.receiver hm) hm.depth hheld (by rw [hcount]; omega)
  have hevents : List.Forall₂ (Renaming.Told w u'.heap)
      (P.ctx.announcements P.m P.this P.fieldOf P.entry s.heap) events := by
    unfold BlockContext.announcements
    rw [← hpairs, List.map_map, List.forall₂_map_left_iff]
    refine List.Forall₂.imp ?_ ((List.forall₂_and_left _ _).mpr ⟨hmem, htells⟩)
    rintro t e ⟨ht, hte⟩
    exact told_announcement hm hobject hextends.heap hunheard ht hte
  have hstate := Renaming.State.beside hm.state _ (hextends.of_alike P.alike)
    (by rw [hcount] at hcost; exact hcost) hspare
    (P.ctx.news_announcements P.m P.this P.fieldOf P.entry s.heap s) hevents
  refine ⟨g', u', hruns, hm.extend hstate rfl hextends, ?_⟩
  -- the slots of the unedited body stay as they are
  obtain ⟨rest, hframes, hlength⟩ := hf.frames
  obtain ⟨rest', hframes', hlength'⟩ := hframes.beside hbeside fun i hi => by
    obtain ⟨t, ht, rfl, hform⟩ := BlockContext.mem_storedSlots_targets hi
    exact hf.slots ▸ (hinside t ht hform).1
  have hsame : ∀ {r r'}, P.likeness.refs w r r' →
      P.likeness.refs { w with spare := w.spare - 16 * P.ctx.promised.length } r r' := fun h => h
  refine ⟨⟨rest', hframes'.of_refs hsame, hlength'.trans hlength⟩, hf.slots, hf.this,
    fun t ht boxed hform => ?_⟩
  obtain ⟨hle, hvalue⟩ := hf.held t ht boxed hform
  refine ⟨hle, ?_⟩
  rw [hbeside.slots, hvalue]
  intro i hi
  obtain ⟨u, hu, rfl, -⟩ := BlockContext.mem_storedSlots_targets hi
  obtain ⟨t', ht', rfl⟩ := List.mem_map.mp (hpairs ▸ ht)
  exact hapart u hu t' ht' boxed hform

/-- The receiver has no handlers in any machine with the heap. -/
def Quiet (P : Pairing) (heap : Heap) : Prop :=
  ∀ s : Machine, s.heap = heap → s.Unheard P.m P.this

/-- A run of the unedited body that announces the promised targets at some positions is followed by a run
of the woven body that runs its blocks there. -/
theorem ends_paired {code : Stream} {positions : List Nat} (blocks : Nat → List Op)
    (hblocks : ∀ q ∈ positions, P.ctx.Notifies P.before P.first P.count (blocks q))
    (hnone : ∀ q, q ∉ positions → blocks q = []) {p : Nat} {v : Value}
    (h : P.old.Ends P.call code (fun q f s g t =>
      Site.telling positions (P.ctx.announcements P.m P.this P.fieldOf P.entry) q f s g t
        ∧ (q ∈ positions → P.Quiet s.heap)) p f s v t)
    (hm : P.Machines w s s') (hf : P.Frames w f f') :
    ∃ w' v' t', w.images <+: w'.images ∧ P.Machines w' t t' ∧ P.likeness.Values w' v v'
      ∧ P.new.Ends P.call' code (fun q => P.new.Runs P.call' (blocks q)) p f' s' v' t' := by
  -- by induction on the run of the unedited body: what the worlds,
  -- machines and frames have in common goes along
  induction h generalizing w f' s' with
  | done hi hdoes =>
    obtain ⟨w₁, way', t', himages, -, hm₁, hdoes', hways⟩ := does_paired hm hf hdoes
    cases hways with
    | done hv => exact ⟨w₁, _, t', himages, hm₁, hv, .done hi hdoes'⟩
  | @next p i f g _ s t _ x v hi hdoes hact hrest ih =>
    obtain ⟨w₁, way', t', himages, hspare, hm₁, hdoes', hways⟩ := does_paired hm hf hdoes
    obtain ⟨⟨rfl, rfl⟩, hquiet⟩ := hact
    cases hways with
    | @next _ g' hf₁ =>
      by_cases hp : p + 1 ∈ positions
      · rw [if_pos hp] at ih
        obtain ⟨h', u', hruns, hm₂, hf₂⟩ := notifies_paired hm₁ hf₁ (hquiet hp t rfl)
          (by omega) (hblocks (p + 1) hp)
        obtain ⟨w₂, v', x', himages₂, hm', hv, hends⟩ := ih hm₂ hf₂
        exact ⟨w₂, v', x', himages.trans himages₂, hm', hv, .next hi hdoes' hruns hends⟩
      · rw [if_neg hp] at ih
        obtain ⟨w₂, v', x', himages₂, hm', hv, hends⟩ := ih hm₁ hf₁
        refine ⟨w₂, v', x', himages.trans himages₂, hm', hv, .next hi hdoes' ?_ hends⟩
        rw [hnone (p + 1) hp]
        exact .nil _ _
  | jump hi hdoes hq hrest ih =>
    obtain ⟨w₁, way', t', himages, -, hm₁, hdoes', hways⟩ := does_paired hm hf hdoes
    cases hways with
    | jump _ hf₁ =>
      obtain ⟨w₂, v', x', himages₂, hm', hv, hends⟩ := ih hm₁ hf₁
      exact ⟨w₂, v', x', himages.trans himages₂, hm', hv, .jump hi hdoes' hq hends⟩

end Pairing

end SetterLoom
