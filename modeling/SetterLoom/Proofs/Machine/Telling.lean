import SetterLoom.Proofs.Machine.Extends

/-!
# Runs with announcements

Code cannot see the trace. So a run that ends normally goes the same way if something is added to the
trace on the way, and it makes sense to ask for the run of a body that tells something wherever control
falls through onto certain positions.

* `FallsOnto`: where control falls through in a run.
* `ends_telling`: the run that tells something there.
-/

namespace SetterLoom
set_option autoImplicit false

/-! ## Other traces -/

namespace Likeness

variable {m m' : Module} {L : Likeness m m'}

/-- A machine is like itself with another trace. -/
def blind (m : Module) : Likeness m m where
  World := Unit
  le := fun _ _ => True
  refs := fun _ r r' => r = r'
  storable := fun _ => True
  pointable := fun _ => True
  callable := fun _ => True
  modules := .refl m
  state := fun _ s s' => s' = { s with trace := s'.trace }
  le_refl := fun _ => trivial
  le_trans := fun _ _ => trivial
  refs_mono := fun _ h => h
  refs_eq_iff := fun _ ha hb => by rw [ha, hb]
  lookup := by
    rintro w s s' r r' o hs rfl ho
    rw [hs]
    exact ⟨o, ho, Worlds.objects_refl (fun _ => rfl) (fun _ => trivial) (fun _ => trivial) o⟩
  push := by
    rintro w s s' o o' hs ho hmade hmade'
    obtain rfl : o' = o := Worlds.eq_of_objects Eq.symm ho hmade hmade'
    rw [hs]
    exact ⟨w, trivial, rfl, rfl⟩
  put := by
    rintro w s s' r r' f v v' hs rfl - hv -
    obtain rfl : v' = v := Worlds.eq_of_values Eq.symm hv
    rw [hs]
  record := by
    rintro w s s' e e' hs -
    rw [hs]
  know := by
    rintro w s s' i d hs - -
    rw [hs]
  load := by
    rintro w s s' i d hs - -
    rw [hs]
  known := by
    rintro w s s' t i hs - hi
    rw [hs]
    exact ⟨hi, trivial⟩
  hooks := fun hs => by rw [hs]
  depth := fun hs => by rw [hs]
  room := fun hs => Nat.le_of_eq (by rw [hs])
  nest := by
    rintro w s s' hs
    refine ⟨w, fun h => h, by rw [hs], fun {w₂ t t'} _ ht => ⟨w₂, trivial, fun h => h, by rw [ht]⟩⟩
  count := fun {w s s'} hs hlimit => by
    rw [hs]
    exact ⟨hlimit, rfl⟩
  answers := fun _ _ _ => Worlds.values_refl (fun _ => rfl) (fun _ => trivial) (fun _ => trivial) _
  subscribes := fun _ _ _ _ _ _ _ _ => trivial
  dispatched := fun _ _ _ _ => trivial
  constructors := fun _ _ => trivial

theorem calls_avoiding {stop : MethodId}
    (h : ∀ ⦃call call' i⦄, L.Calls call call' → L.callable i → i ≠ stop → L.Bodies call call' i)
    (bound : Nat) :
    L.Calls (Action.invokeAvoiding m stop bound) (Action.invokeAvoiding m' stop bound) := by
  induction bound with
  | zero => exact fun _ _ _ _ _ _ _ _ _ => .fault
  | succ bound ih =>
    intro w i this this' args args' hi hthis hargs
    unfold Action.invokeAvoiding
    by_cases hstop : i = stop
    · rw [if_pos hstop]
      exact .fault
    · rw [if_neg hstop, if_neg hstop]
      exact like_invokeWith ih hi (h ih hi hstop) hthis hargs

theorem bodies_of_same {call call' : Call} {i : MethodId} (hcalls : L.Calls call call')
    (hbody : ∀ d d', m.method? i = some d → m'.method? i = some d' → d'.body = d.body)
    (hallowed : ∀ op, L.Allowed op) : L.Bodies call call' i := by
  intro d d' hd hd' w this this' args args' hthis hargs
  have hsame := hbody d d' hd hd'
  obtain ⟨d'', hd'', hsignature⟩ := L.modules.method? hd
  obtain rfl := Option.some.inj (hd'.symm.trans hd'')
  cases hcase : d.body with
  | none =>
    unfold Site.runBody
    simp only [hcase]
    exact .throw
  | some body =>
    rw [hcase] at hsame
    exact like_runBody hcalls hsignature hcase hsame (fun j _ => hallowed j.op) hthis hargs

theorem eq_of_forall₂ {α : Type} {r : α → α → Prop} (h : ∀ a b, r a b → b = a) {l l' : List α}
    (hl : List.Forall₂ r l l') : l' = l := by
  induction hl with
  | nil => rfl
  | cons hr _ ih => rw [h _ _ hr, ih]

theorem eq_of_frames {w : L.World} (hrefs : ∀ {r r'}, L.refs w r r' → r' = r) {f f' : Frame}
    (h : L.Frames w [] f f') : f' = f := by
  have hvalues : ∀ v v', L.Values w v v' → v' = v := fun _ _ => Worlds.eq_of_values hrefs
  obtain ⟨slots, hslots, hrel⟩ := h.slots
  rw [List.append_nil] at hslots
  have harguments := eq_of_forall₂ hvalues h.arguments
  have hslots' := eq_of_forall₂ hvalues hrel
  have hstack := eq_of_forall₂ hvalues h.stack
  cases f
  cases f'
  simp only at harguments hslots hslots' hstack
  rw [harguments, hslots, hslots', hstack]

end Likeness

namespace Site

variable {m : Module} {d : Method} {stop : MethodId} {bound : Nat}

private theorem calls_blind (m : Module) (stop : MethodId) (bound : Nat) :
    (Likeness.blind m).Calls (Action.invokeAvoiding m stop bound)
      (Action.invokeAvoiding m stop bound) := by
  refine Likeness.calls_avoiding (fun call call' i hcalls _ _ => ?_) bound
  refine Likeness.bodies_of_same hcalls (fun d d' hd hd' => ?_) fun op =>
    ⟨fun _ _ _ => trivial, fun _ _ => trivial, fun _ _ _ _ _ => trivial⟩
  rw [Option.some.inj (hd.symm.trans hd')]

/-- An instruction does the same with another trace, up to the trace. -/
theorem Does.retrace {op : Op} {f : Frame} {s t : Machine} {way : Step}
    (h : (⟨m, d⟩ : Site).Does (Action.invokeAvoiding m stop bound) op f s way t)
    (trace : Array TraceEvent) :
    ∃ trace', (⟨m, d⟩ : Site).Does (Action.invokeAvoiding m stop bound) op f { s with trace } way
      { t with trace := trace' } := by
  have hvalues : ∀ vs : List Value, List.Forall₂ ((Likeness.blind m).Values ()) vs vs :=
    fun vs => List.forall₂_same.mpr fun v _ =>
      Worlds.values_refl (fun _ => rfl) (fun _ => trivial) (fun _ => trivial) v
  have hf : (Likeness.blind m).Frames () [] f f :=
    ⟨hvalues f.arguments, ⟨f.slots, (List.append_nil _).symm, hvalues f.slots⟩, hvalues f.stack⟩
  have hs : (Likeness.blind m).state () s { s with trace } := rfl
  obtain ⟨w', way', t', -, ht, hway, hdoes⟩ := Likeness.like_does (calls_blind m stop bound)
    (rfl : d.signature = d.signature)
    ⟨fun _ _ _ => trivial, fun _ _ => trivial, fun _ _ _ _ _ => trivial⟩ hf hs h
  have hsame : way' = way := by
    cases hway with
    | next hg => rw [Likeness.eq_of_frames (L := Likeness.blind m) (w := w') Eq.symm hg]
    | jump l hg => rw [Likeness.eq_of_frames (L := Likeness.blind m) (w := w') Eq.symm hg]
    | done hv => rw [Worlds.eq_of_values (W := (Likeness.blind m).toWorlds) (w := w') Eq.symm hv]
  rw [hsame] at hdoes
  refine ⟨t'.trace, ?_⟩
  rw [← show t' = { t with trace := t'.trace } from ht]
  exact hdoes

/-! ## Falling through -/

/-- In a run from a position control falls through onto another one. -/
inductive FallsOnto (c : Site) (call : Call) (code : Stream) :
    Nat → Frame → Machine → Nat → Frame → Machine → Prop
  | here {p : Nat} {i : Instruction} {f g : Frame} {s t : Machine} (hi : code[p]? = some i)
    (h : c.Does call i.op f s (.next g) t) : FallsOnto c call code p f s (p + 1) g t
  | next {p q : Nat} {i : Instruction} {f g h : Frame} {s t u : Machine}
    (hi : code[p]? = some i) (hdoes : c.Does call i.op f s (.next g) t)
    (hrest : FallsOnto c call code (p + 1) g t q h u) : FallsOnto c call code p f s q h u
  | jump {p p' q : Nat} {i : Instruction} {l : Label} {f g h : Frame} {s t u : Machine}
    (hi : code[p]? = some i) (hdoes : c.Does call i.op f s (.jump l g) t)
    (hp : code.lastPosition? l = some p') (hrest : FallsOnto c call code p' g t q h u) :
    FallsOnto c call code p f s q h u

section Falling

variable {c : Site} {call : Call} {code : Stream} {p q : Nat} {i : Instruction} {f h : Frame}
  {s t u : Machine} {way : Step}

private theorem way_of_step (hi : code[p]? = some i)
    (hstep : (c.step call i.op f).run.run (s.spent 1) = (.ok way, t)) {i' : Instruction}
    {way' : Step} {t' : Machine} (hi' : code[p]? = some i') (hdoes : c.Does call i'.op f s way' t') :
    way' = way ∧ t' = t := by
  obtain rfl := Option.some.inj (hi.symm.trans hi')
  obtain ⟨-, hresult, rfl⟩ := (does_iff hstep).mp hdoes
  exact ⟨(Except.ok.inj hresult).symm, rfl⟩

theorem FallsOnto.of_step {g : Frame} (hfalls : c.FallsOnto call code p f s q h u)
    (hi : code[p]? = some i)
    (hstep : (c.step call i.op f).run.run (s.spent 1) = (.ok (.next g), t)) :
    (q = p + 1 ∧ u = t) ∨ c.FallsOnto call code (p + 1) g t q h u := by
  cases hfalls with
  | here hi' hdoes =>
    obtain ⟨-, rfl⟩ := way_of_step hi hstep hi' hdoes
    exact .inl ⟨rfl, rfl⟩
  | next hi' hdoes hrest =>
    obtain ⟨hg, rfl⟩ := way_of_step hi hstep hi' hdoes
    cases hg
    exact .inr hrest
  | jump hi' hdoes hp hrest =>
    obtain ⟨hg, -⟩ := way_of_step hi hstep hi' hdoes
    cases hg

theorem not_fallsOnto_of_done {v : Value} (hi : code[p]? = some i)
    (hstep : (c.step call i.op f).run.run (s.spent 1) = (.ok (.done v), t)) :
    ¬ c.FallsOnto call code p f s q h u := by
  intro hfalls
  cases hfalls with
  | here hi' hdoes => cases (way_of_step hi hstep hi' hdoes).1
  | next hi' hdoes hrest => cases (way_of_step hi hstep hi' hdoes).1
  | jump hi' hdoes hp hrest => cases (way_of_step hi hstep hi' hdoes).1

end Falling

/-- Something is told wherever control falls through onto one of the positions. -/
def telling (positions : List Nat) (tell : Heap → List TraceEvent) : OnFall := fun q f s g t =>
  g = f ∧ t = if q ∈ positions then { s with trace := s.trace ++ (tell s.heap).toArray } else s

/-- A run goes the same way if something is told on the way. -/
theorem ends_telling {positions : List Nat} (tell : Heap → List TraceEvent) (quiet : Heap → Prop)
    {code : Stream} {p : Nat} {f : Frame} {s t : Machine} {v : Value}
    (h : (⟨m, d⟩ : Site).Ends (Action.invokeAvoiding m stop bound) code idle p f s v t)
    (hquiet : ∀ q ∈ positions, ∀ g u,
      (⟨m, d⟩ : Site).FallsOnto (Action.invokeAvoiding m stop bound) code p f s q g u →
        quiet u.heap) (trace : Array TraceEvent) :
    ∃ trace', (⟨m, d⟩ : Site).Ends (Action.invokeAvoiding m stop bound) code
      (fun q f s g t => telling positions tell q f s g t ∧ (q ∈ positions → quiet s.heap)) p f
      { s with trace } v { t with trace := trace' } := by
  -- by induction on the run, for every trace: the positions it falls
  -- onto are among those of the whole run
  induction h generalizing trace with
  | done hi hdoes =>
    obtain ⟨trace', hdoes'⟩ := hdoes.retrace trace
    exact ⟨trace', .done hi hdoes'⟩
  | @next p i f _ g s _ t x v hi hdoes hact hrest ih =>
    obtain ⟨rfl, rfl⟩ := hact
    obtain ⟨trace₁, hdoes'⟩ := hdoes.retrace trace
    let trace₂ := if p + 1 ∈ positions then trace₁ ++ (tell t.heap).toArray else trace₁
    obtain ⟨trace', hends⟩ :=
      ih (fun q hq g' u hfalls => hquiet q hq g' u (.next hi hdoes hfalls)) trace₂
    refine ⟨trace', .next hi hdoes' ⟨⟨rfl, ?_⟩, fun hp => hquiet (p + 1) hp g t (.here hi hdoes)⟩ hends⟩
    show _ = if p + 1 ∈ positions then _ else _
    split
    · rename_i hp
      show ({ t with trace := trace₂ } : Machine) = _
      rw [show trace₂ = trace₁ ++ (tell t.heap).toArray from if_pos hp]
    · rename_i hp
      show ({ t with trace := trace₂ } : Machine) = _
      rw [show trace₂ = trace₁ from if_neg hp]
  | jump hi hdoes hq hrest ih =>
    obtain ⟨trace₁, hdoes'⟩ := hdoes.retrace trace
    obtain ⟨trace', hends⟩ :=
      ih (fun q hq' g' u hfalls => hquiet q hq' g' u (.jump hi hdoes hq hfalls)) trace₁
    exact ⟨trace', .jump hi hdoes' hq hends⟩

end Site

end SetterLoom
