import SetterLoom.Proofs.Machine.Reaches

/-!
# Code that leaves fields alone

Code that stores into none of some held fields, and that calls and points to such code only, leaves the
held fields of all objects as they are, however its calls are dispatched and whatever handlers it makes
the machine call. For the handlers this needs that delegates and pointers lead to such code only, which
such code preserves.

* `Restraint.likeness`: the states that such code can lead to.
* `Restraint.runs`: a piece of such code.
-/

namespace SetterLoom
set_option autoImplicit false

/-! ## The values of fields -/

/-- The value that was stored last in a field of an object. -/
def Heap.cell (h : Heap) (r : HeapRef) (f : Token) : Option Value :=
  match h.get? r with
  | some (.object _ fields) => fields.get? f
  | _ => none

namespace Heap

variable {h : Heap} {r q : HeapRef} {f g : Token} {v : Value} {t : Token} {fields : TokenMap Value}

theorem cell_of_object (hr : h.get? r = some (.object t fields)) : h.cell r f = fields.get? f := by
  unfold cell
  rw [hr]

theorem cell_push {o : HeapObject} (ho : o.Made) : (h.push o).cell r f = h.cell r f := by
  unfold cell
  by_cases hr : r.id ≤ h.size
  · rw [get?_push_old h o hr]
  · have hnone : h.get? r = none := by
      cases hget : h.get? r with
      | none => rfl
      | some o' => exact absurd (get?_eq_some hget).2 hr
    rw [hnone]
    by_cases hnext : r = h.next
    · subst hnext
      rw [get?_push_new]
      cases o with
      | object t fields =>
        obtain rfl := ho t fields rfl
        exact TokenMap.get?_empty f
      | string | boxed | delegate => rfl
    · have hbeyond : (h.push o).get? r = none := by
        cases hget : (h.push o).get? r with
        | none => rfl
        | some o' =>
          have hsize := (get?_eq_some hget).2
          rw [size_push] at hsize
          refine absurd ?_ hnext
          have hid : r.id = h.size + 1 := by omega
          cases r
          simp only at hid
          rw [hid]
          rfl
      rw [hbeyond]

theorem cell_put (hr : h.get? r = some (.object t fields)) :
    (h.put r f v).cell q g = if q = r ∧ g = f then some v else h.cell q g := by
  unfold cell
  rw [get?_put h r q f v (get?_eq_some hr).1]
  by_cases hq : q = r
  · subst hq
    rw [if_pos rfl, hr]
    simp only [Option.map_some, HeapObject.put, true_and]
    rw [TokenMap.get?_insert]
  · rw [if_neg hq, if_neg fun h => hq h.1]

end Heap

theorem Likeness.bodies_of_allowed {m : Module} {L : Likeness m m} {call call' : Call}
    (hcalls : L.Calls call call') {i : MethodId}
    (h : ∀ d body, m.method? i = some d → d.body = some body → ∀ j ∈ body.code, L.Allowed j.op) :
    L.Bodies call call' i := by
  intro d d' hd hd' w this this' args args' hthis hargs
  obtain rfl : d = d' := Option.some.inj (hd.symm.trans hd')
  cases hbody : d.body with
  | none =>
    unfold Site.runBody
    simp only [hbody]
    exact .throw
  | some body => exact like_runBody hcalls rfl hbody hbody (h d body hd hbody) hthis hargs

/-! ## Restraints -/

/-- What code is held to: the fields that it does not store into and the methods that it calls. The
machine answers only for members of the runtime. -/
structure Restraint (m : Module) where
  held : Token → Prop
  callable : MethodId → Prop
  hooks : HookTable
  dispatched : ∀ {i j d d'}, callable i → m.method? i = some d → m.method? j = some d' →
    d'.name = d.name → callable j
  constructors : ∀ {i d}, m.method? i = some d → d.name = Surface.constructor → callable i
  runtime : ∀ h ∈ hooks, ∃ member, h.action = .runtime member
  events : ∀ {i d h}, callable i → m.method? i = some d → hooks.find? (⟨m, d⟩ : Site).callName = some h →
    h.action = .runtime .addHandler ∨ h.action = .runtime .removeHandler →
      ∀ t f, m.fieldInLine? t Surface.changedEvent = some f → ¬ held f.token

namespace Restraint

variable {m : Module} (R : Restraint m)

def worlds : Worlds where
  World := HeapRef → Token → Option Value
  le := (· = ·)
  refs := fun _ r r' => r = r'
  storable := fun f => ¬ R.held f
  pointable := fun t => ∀ i d, m.method? i = some d → d.token = t → R.callable i
  callable := R.callable

/-- What is found in such a world does not depend on the values of the held fields. -/
theorem values_world {w : R.worlds.World} (u : R.worlds.World) {v x : Value}
    (h : R.worlds.Values w v x) : R.worlds.Values u v x := by
  have hrefs : ∀ {r r'}, R.worlds.refs w r r' → R.worlds.refs u r r' := fun h => h
  exact h.grow hrefs

theorem objects_world {w : R.worlds.World} (u : R.worlds.World) {o x : HeapObject}
    (h : R.worlds.Objects w o x) : R.worlds.Objects u o x := by
  have hrefs : ∀ {r r'}, R.worlds.refs w r r' → R.worlds.refs u r r' := fun h => h
  exact h.grow hrefs

/-- The value leads to restrained code only. -/
def Trusts (v : Value) : Prop := R.worlds.Values (fun _ _ => none) v v

/-- All that the state holds leads to restrained code only. -/
structure Tame (s : Machine) : Prop where
  hooks : s.hooks = R.hooks
  functions : ∀ t i, s.functions.get? t = some i → ∃ d, m.method? i = some d ∧ d.token = t
  objects : ∀ r o, s.heap.get? r = some o → R.worlds.Objects (fun _ _ => none) o o

variable {R}

/-- The values of the held fields in a state. -/
def Holds (R : Restraint m) (cells : HeapRef → Token → Option Value) (s : Machine) : Prop :=
  ∀ r f, R.held f → s.heap.cell r f = cells r f

theorem Tame.push {s : Machine} (h : R.Tame s) {o : HeapObject}
    (ho : R.worlds.Objects (fun _ _ => none) o o) :
    R.Tame { s with heap := s.heap.push o } := by
  refine ⟨h.hooks, h.functions, fun r o' hr => ?_⟩
  have hget : (s.heap.push o).get? r = some o' := hr
  by_cases hsize : r.id ≤ s.heap.size
  · rw [Heap.get?_push_old s.heap o hsize] at hget
    exact h.objects r o' hget
  · have hle := (Heap.get?_eq_some hget).2
    rw [Heap.size_push] at hle
    have hid : r.id = s.heap.size + 1 := by omega
    obtain rfl : r = s.heap.next := by
      cases r
      simp only at hid
      rw [hid]
      rfl
    rw [Heap.get?_push_new] at hget
    rwa [← Option.some.inj hget]

theorem Tame.put {s : Machine} (h : R.Tame s) {r : HeapRef} {f t : Token} {v : Value}
    {fields : TokenMap Value} (hr : s.heap.get? r = some (.object t fields)) (hv : R.Trusts v) :
    R.Tame { s with heap := s.heap.put r f v } := by
  refine ⟨h.hooks, h.functions, fun q o hq => ?_⟩
  have hget : (s.heap.put r f v).get? q = some o := hq
  rw [Heap.get?_put s.heap r q f v (Heap.get?_eq_some hr).1] at hget
  split at hget
  · rename_i heq
    subst heq
    rw [hr] at hget
    rw [← Option.some.inj hget]
    have hold := h.objects q _ hr
    cases hold with
    | object _ hfields =>
      refine .object t fun g => ?_
      rw [TokenMap.get?_insert]
      split
      · exact .some hv
      · exact hfields g
  · exact h.objects q o hget

theorem Tame.know {s : Machine} (h : R.Tame s) {functions : TokenMap MethodId}
    (hfunctions : ∀ t i, functions.get? t = some i →
      s.functions.get? t = some i ∨ ∃ d, m.method? i = some d ∧ d.token = t) :
    R.Tame { s with functions } :=
  ⟨h.hooks, fun t i hi => (hfunctions t i hi).elim (h.functions t i) id, h.objects⟩

theorem Tame.learn {s : Machine} (h : R.Tame s) {i : MethodId} {d : Method}
    (hd : m.method? i = some d) :
    R.Tame { s with functions := s.functions.insertNew d.token i } := by
  refine h.know fun t j hj => ?_
  rw [TokenMap.get?_insertNew] at hj
  split at hj
  · rename_i heq
    subst heq
    cases hknown : s.functions.get? d.token with
    | none =>
      rw [hknown] at hj
      obtain rfl := Option.some.inj hj
      exact .inr ⟨d, hd, rfl⟩
    | some k =>
      rw [hknown] at hj
      exact .inl hj
  · exact .inl hj

theorem Tame.update {s t : Machine} (h : R.Tame s) (hhooks : t.hooks = s.hooks)
    (hfunctions : t.functions = s.functions) (hheap : t.heap = s.heap) : R.Tame t :=
  ⟨hhooks.trans h.hooks, fun x i hi => h.functions x i (hfunctions ▸ hi),
    fun r o hr => h.objects r o (hheap ▸ hr)⟩

variable (R)

/-- The heaps of which something holds are not left by allocations and by stores into other fields. -/
structure Keeps (K : Heap → Prop) : Prop where
  push : ∀ {h o}, K h → o.Made → K (h.push o)
  put : ∀ {h r f v t fields}, K h → h.get? r = some (.object t fields) → ¬ R.held f → K (h.put r f v)

/-- Restrained code does not lead out of the states whose heaps something holds of. -/
def keeping (K : (HeapRef → Token → Option Value) → Heap → Prop) (hK : ∀ w, R.Keeps (K w)) :
    Likeness m m where
  toWorlds := R.worlds
  modules := .refl m
  state := fun w s s' => s' = s ∧ R.Tame s ∧ K w s.heap
  le_refl := fun _ => rfl
  le_trans := Eq.trans
  refs_mono := fun _ h => h
  refs_eq_iff := by
    rintro w s s' a a' b b' - rfl rfl
    exact Iff.rfl
  lookup := by
    rintro w s s' r r' o ⟨rfl, htame, -⟩ rfl ho
    exact ⟨o, ho, R.objects_world w (htame.objects r o ho)⟩
  push := by
    rintro w s s' o o' ⟨rfl, htame, hholds⟩ ho hmade hmade'
    obtain rfl : o' = o := Worlds.eq_of_objects (W := R.worlds) Eq.symm ho hmade hmade'
    exact ⟨w, rfl, rfl, rfl, htame.push (R.objects_world _ ho), (hK w).push hholds hmade⟩
  put := by
    rintro w s s' r r' f v v' ⟨rfl, htame, hholds⟩ rfl hstorable hv ⟨t, fields, hr⟩
    obtain rfl : v' = v := Worlds.eq_of_values (W := R.worlds) Eq.symm hv
    exact ⟨rfl, htame.put hr (R.values_world _ hv), (hK w).put hholds hr hstorable⟩
  record := by
    rintro w s s' e e' ⟨rfl, htame, hholds⟩ he
    obtain rfl : e' = e := Worlds.eq_of_events (W := R.worlds) Eq.symm he
    exact ⟨rfl, htame.update rfl rfl rfl, hholds⟩
  know := by
    rintro w s s' i d ⟨rfl, htame, hholds⟩ - hd
    exact ⟨rfl, htame.learn hd, hholds⟩
  load := by
    rintro w s s' i d ⟨rfl, htame, hholds⟩ - hd
    refine ⟨rfl, htame.know fun t j hj => ?_, hholds⟩
    rw [TokenMap.get?_insert] at hj
    split at hj
    · rename_i heq
      obtain rfl := Option.some.inj hj
      exact .inr ⟨d, hd, heq.symm⟩
    · exact .inl hj
  known := by
    rintro w s s' t i ⟨rfl, htame, -⟩ hpointable hi
    obtain ⟨d, hd, htoken⟩ := htame.functions t i hi
    exact ⟨hi, hpointable i d hd htoken⟩
  hooks := by
    rintro w s s' ⟨rfl, -, -⟩
    rfl
  depth := by
    rintro w s s' ⟨rfl, -, -⟩
    rfl
  room := by
    rintro w s s' ⟨rfl, -, -⟩
    exact Nat.le_refl _
  nest := by
    rintro w s s' ⟨rfl, htame, hholds⟩
    refine ⟨w, fun h => h, ⟨rfl, htame.update rfl rfl rfl, hholds⟩, ?_⟩
    rintro w₂ t t' rfl ⟨rfl, htame', hholds'⟩
    exact ⟨w, rfl, fun h => h, rfl, htame'.update rfl rfl rfl, hholds'⟩
  count := by
    rintro w s s' ⟨rfl, htame, hholds⟩ hlimit
    exact ⟨hlimit, rfl, htame.update rfl rfl rfl, hholds⟩
  answers := by
    rintro w s s' h v ⟨rfl, htame, -⟩ hmem haction
    rw [htame.hooks] at hmem
    obtain ⟨member, hmember⟩ := R.runtime h hmem
    rw [hmember] at haction
    cases haction
  subscribes := by
    rintro w s s' i d h ⟨rfl, htame, -⟩ hi hd hfind haction
    rw [htame.hooks] at hfind
    exact R.events hi hd hfind haction
  dispatched := R.dispatched
  constructors := R.constructors

theorem keeps_cells (cells : HeapRef → Token → Option Value) :
    R.Keeps fun h => ∀ r f, R.held f → h.cell r f = cells r f where
  push hholds hmade := fun r f hf => (Heap.cell_push hmade).trans (hholds r f hf)
  put := by
    intro h r f v t fields hholds hr hother q g hg
    have hcell := Heap.cell_put (q := q) (g := g) (f := f) (v := v) hr
    have hne : ¬ (q = r ∧ g = f) := by
      rintro ⟨-, rfl⟩
      exact hother hg
    rw [if_neg hne] at hcell
    exact hcell.trans (hholds q g hg)

/-- The states that restrained code can lead to are those in which the held fields have the same
values. -/
def likeness : Likeness m m :=
  R.keeping (fun cells h => ∀ r f, R.held f → h.cell r f = cells r f) R.keeps_cells

/-- The bodies of the methods that may be called are restrained. -/
def Quiet : Prop :=
  ∀ i d body, R.callable i → m.method? i = some d → d.body = some body →
    ∀ j ∈ body.code, R.likeness.Allowed j.op

/-- The frame leads to restrained code only. -/
structure Fits (f : Frame) : Prop where
  arguments : ∀ v ∈ f.arguments, R.Trusts v
  slots : ∀ v ∈ f.slots, R.Trusts v
  stack : ∀ v ∈ f.stack, R.Trusts v

variable {R}

private theorem forall₂_of_trusts {w : R.worlds.World} {values : List Value}
    (h : ∀ v ∈ values, R.Trusts v) : List.Forall₂ (R.worlds.Values w) values values :=
  List.forall₂_same.mpr fun v hv => R.values_world w (h v hv)

private theorem trusts_of_forall₂ {w : R.worlds.World} {values values' : List Value}
    (h : List.Forall₂ (R.worlds.Values w) values values') : ∀ v ∈ values, R.Trusts v := by
  obtain rfl := Likeness.eq_of_forall₂ (fun _ _ => Worlds.eq_of_values (W := R.worlds) Eq.symm) h
  exact fun v hv => R.values_world _ (List.forall₂_same.mp h v hv)

private theorem Fits.frames {f : Frame} (h : R.Fits f) (w : R.worlds.World) :
    R.likeness.Frames w [] f f :=
  ⟨forall₂_of_trusts h.arguments, ⟨f.slots, (List.append_nil _).symm, forall₂_of_trusts h.slots⟩,
    forall₂_of_trusts h.stack⟩

private theorem fits_of_frames {f f' : Frame} {w : R.worlds.World}
    (h : R.likeness.Frames w [] f f') : R.Fits f := by
  obtain ⟨slots, -, hslots⟩ := h.slots
  exact ⟨trusts_of_forall₂ h.arguments, trusts_of_forall₂ hslots, trusts_of_forall₂ h.stack⟩

theorem fits_start (d : Method) (body : Body) {arguments : List Value}
    (h : ∀ v ∈ arguments, R.Trusts v) :
    R.Fits { arguments, slots := (⟨m, d⟩ : Site).startSlots body } := by
  have hframes : R.likeness.Frames (fun _ _ => none) []
      { arguments, slots := (⟨m, d⟩ : Site).startSlots body }
      { arguments, slots := (⟨m, d⟩ : Site).startSlots body } :=
    Likeness.frames_start body (forall₂_of_trusts h)
  exact fits_of_frames hframes

theorem calls (hquiet : R.Quiet) (bound : Nat) :
    R.likeness.Calls (Action.invokeAt m bound) (Action.invokeAt m bound) :=
  Likeness.calls_invokeAt (fun _ _ i hcalls hi =>
    Likeness.bodies_of_allowed hcalls fun d body => hquiet i d body hi) (Nat.le_refl bound)

variable {bound : Nat} {s t : Machine} {cells : HeapRef → Token → Option Value}

variable {c : Site} {f : Frame}

/-- How a restrained body goes on. -/
inductive FitsOn (R : Restraint m) : Step → Prop
  | next {g : Frame} (h : R.Fits g) : FitsOn R (.next g)
  | jump (l : Label) {g : Frame} (h : R.Fits g) : FitsOn R (.jump l g)
  | done {v : Value} (h : R.Trusts v) : FitsOn R (.done v)

section Keeping

variable {K : (HeapRef → Token → Option Value) → Heap → Prop} {hK : ∀ w, R.Keeps (K w)} {call : Call}
  {w : HeapRef → Token → Option Value} (hcalls : (R.keeping K hK).Calls call call)
include hcalls

theorem does_keeping {d : Method} {op : Op} {way : Step} (hop : R.likeness.Allowed op) (hf : R.Fits f)
    (hs : R.Tame s) (hheap : K w s.heap) (h : (⟨m, d⟩ : Site).Does call op f s way t) :
    R.Tame t ∧ K w t.heap ∧ R.FitsOn way := by
  have hstate : (R.keeping K hK).state w s s := ⟨rfl, hs, hheap⟩
  have hallowed : (R.keeping K hK).Allowed op := ⟨hop.field, hop.method, hop.pointer⟩
  have hframes := hf.frames w
  have hframes : (R.keeping K hK).Frames w [] f f :=
    ⟨hframes.arguments, hframes.slots, hframes.stack⟩
  obtain ⟨_, way', t', rfl, ⟨rfl, htame, hholds⟩, hway, -⟩ :=
    Likeness.like_does hcalls (rfl : d.signature = d.signature) hallowed hframes hstate h
  refine ⟨htame, hholds, ?_⟩
  cases hway with
  | next hnext => exact .next (fits_of_frames ⟨hnext.arguments, hnext.slots, hnext.stack⟩)
  | jump l hjump => exact .jump l (fits_of_frames ⟨hjump.arguments, hjump.slots, hjump.stack⟩)
  | done hvalue =>
    obtain rfl := Worlds.eq_of_values (W := R.worlds) Eq.symm hvalue
    exact .done (R.values_world _ hvalue)

theorem runs_keeping {d : Method} {ops : List Op} {g : Frame} (hops : ∀ op ∈ ops, R.likeness.Allowed op)
    (hf : R.Fits f) (hs : R.Tame s) (hheap : K w s.heap)
    (h : (⟨m, d⟩ : Site).Runs call ops f s g t) :
    R.Tame t ∧ K w t.heap ∧ R.Fits g := by
  -- what holds of the heap is asked for at every instruction, so it
  -- goes along with the frame and the state
  induction ops generalizing f s with
  | nil =>
    obtain ⟨rfl, rfl⟩ := Site.runs_nil.mp h
    exact ⟨hs, hheap, hf⟩
  | cons op rest ih =>
    obtain ⟨k, u, hdoes, hrest⟩ := Site.runs_cons.mp h
    obtain ⟨htame, hheap, hfits⟩ := does_keeping hcalls (hops op List.mem_cons_self) hf hs hheap hdoes
    cases hfits with
    | next hk => exact ih (fun o ho => hops o (List.mem_cons_of_mem _ ho)) hk htame hheap hrest

omit hcalls in
/-- A method with a receiver does not lead out of the heaps of which something holds if its runs do
not. -/
theorem bodies_of_ends {i : MethodId} {d : Method} {body : Body} (hd : m.method? i = some d)
    (hbody : d.body = some body) (hinstance : d.isStatic = false)
    (hends : ∀ {w f s v t}, R.Fits f → R.Tame s → K w s.heap →
      (⟨m, d⟩ : Site).Ends call body.code Site.idle 0 f s v t →
        R.Tame t ∧ K w t.heap ∧ R.Trusts v) :
    (R.keeping K hK).Bodies call call i := by
  intro d₁ d₂ hd₁ hd₂ w this this' args args' hthis hargs
  obtain rfl := Option.some.inj (hd.symm.trans hd₁)
  obtain rfl := Option.some.inj (hd.symm.trans hd₂)
  cases hthis with
  | none =>
    unfold Site.runBody Site.startFrame
    simp only [hbody, hinstance, Bool.false_eq_true, if_false]
    intro s s' v t _ hrun
    cases (Prod.mk.inj hrun).1
  | @some this this' hthis =>
    rintro s s' v t ⟨rfl, hs, hheap⟩ hrun
    have htrusts : ∀ x ∈ this :: args, R.Trusts x := trusts_of_forall₂ (.cons hthis hargs)
    obtain rfl : this' = this := Worlds.eq_of_values (W := R.worlds) Eq.symm hthis
    obtain rfl : args' = args :=
      Likeness.eq_of_forall₂ (fun _ _ => Worlds.eq_of_values (W := R.worlds) Eq.symm) hargs
    obtain ⟨x, hbodyEnds, rfl⟩ := Site.ends_of_runBody hbody hinstance hrun
    obtain ⟨htame, hheap, hv⟩ := hends (R.fits_start d body htrusts)
      (s := { s' with depth := s'.depth + 1 }) (hs.update rfl rfl rfl) hheap hbodyEnds
    exact ⟨w, v, _, rfl, ⟨rfl, htame.update rfl rfl rfl, hheap⟩, hrun, R.values_world _ hv⟩

end Keeping

/-- An instruction of restrained code leaves the held fields alone. -/
theorem does (hquiet : R.Quiet) {d : Method} {op : Op} {way : Step} (hop : R.likeness.Allowed op)
    (hf : R.Fits f) (hs : R.Tame s) (hcells : R.Holds cells s)
    (h : (⟨m, d⟩ : Site).Does (Action.invokeAt m bound) op f s way t) :
    R.Tame t ∧ R.Holds cells t ∧ R.FitsOn way :=
  does_keeping (calls hquiet bound) hop hf hs hcells h

theorem runs (hquiet : R.Quiet) {d : Method} {ops : List Op} {g : Frame}
    (hops : ∀ op ∈ ops, R.likeness.Allowed op) (hf : R.Fits f) (hs : R.Tame s)
    (hcells : R.Holds cells s)
    (h : (⟨m, d⟩ : Site).Runs (Action.invokeAt m bound) ops f s g t) :
    R.Tame t ∧ R.Holds cells t ∧ R.Fits g :=
  runs_keeping (calls hquiet bound) hops hf hs hcells h

theorem skips (hquiet : R.Quiet) {d : Method} {test inner : List Op} {last : Label} {g : Frame}
    (htest : ∀ op ∈ test, R.likeness.Allowed op) (hinner : ∀ op ∈ inner, R.likeness.Allowed op)
    (hf : R.Fits f) (hs : R.Tame s) (hcells : R.Holds cells s)
    (h : (⟨m, d⟩ : Site).Skips (Action.invokeAt m bound) test last inner f s g t) :
    R.Tame t ∧ R.Holds cells t ∧ R.Fits g := by
  have hbranch : R.likeness.Allowed (.branch .brtrue last) := ⟨nofun, nofun, nofun⟩
  have hnop : R.likeness.Allowed .nop := ⟨nofun, nofun, nofun⟩
  cases h with
  | past hruns hjump hend =>
    obtain ⟨htame, hholds, hfits⟩ := runs hquiet htest hf hs hcells hruns
    obtain ⟨htame, hholds, hway⟩ := does hquiet hbranch hfits htame hholds hjump
    cases hway with
    | jump _ hfits =>
      obtain ⟨htame, hholds, hway⟩ := does hquiet hnop hfits htame hholds hend
      cases hway with
      | next hfits => exact ⟨htame, hholds, hfits⟩
  | through hruns hgo hmore hend =>
    obtain ⟨htame, hholds, hfits⟩ := runs hquiet htest hf hs hcells hruns
    obtain ⟨htame, hholds, hway⟩ := does hquiet hbranch hfits htame hholds hgo
    cases hway with
    | next hfits =>
      obtain ⟨htame, hholds, hfits⟩ := runs hquiet hinner hfits htame hholds hmore
      obtain ⟨htame, hholds, hway⟩ := does hquiet hnop hfits htame hholds hend
      cases hway with
      | next hfits => exact ⟨htame, hholds, hfits⟩

end Restraint

end SetterLoom
