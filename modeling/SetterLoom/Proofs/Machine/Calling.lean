import SetterLoom.Proofs.Machine.Ends
import SetterLoom.Proofs.Machine.Stepping

/-!
# Calls, alike

A call of a method in two like states is noted, answered and run alike, if the bodies that the method has
in the two modules are. For a method whose body is the same in both and does only what code is free to
do they always are; what is to be shown of a likeness is left to the other methods.

* `like_runBody`: bodies of free code.
* `like_invokeWith`: one call.
* `calls_invokeAt`, `calls_invokeAvoiding`: calls of all depths.
-/

namespace SetterLoom
set_option autoImplicit false

namespace Action

/-- Call a method, with calls nested at most as deep as given and none of them to the method `stop`. -/
def invokeAvoiding (m : Module) (stop : MethodId) : Nat → Call
  | 0, i, _, _ => fault (.callDepth (m.methodText i))
  | bound + 1, i, this, arguments =>
    if i = stop then fault (.callDepth (m.methodText i))
    else invokeWith m (invokeAvoiding m stop bound) i this arguments

end Action

namespace Likeness

variable {m m' : Module} {L : Likeness m m'} {w : L.World} {d d' : Method} {call call' : Call}

/-! ## Bodies -/

theorem like_does (hcall : L.Calls call call') (hsignature : d'.signature = d.signature) {op : Op}
    (hop : L.Allowed op) {rest : List Value} {f f' : Frame} (hf : L.Frames w rest f f')
    {s s' t : Machine} {way : Step} (hs : L.state w s s')
    (hdoes : (⟨m, d⟩ : Site).Does call op f s way t) :
    ∃ w' way' t', L.le w w' ∧ L.state w' t t' ∧ L.Steps w' rest way way'
      ∧ (⟨m', d'⟩ : Site).Does call' op f' s' way' t' := by
  obtain ⟨hlimit, hs₀⟩ := L.count hs hdoes.1
  obtain ⟨w', way', t', hle, ht, hstep, hway⟩ := like_step hcall hsignature hop hf hs₀ hdoes.2
  exact ⟨w', way', t', hle, ht, hway, hlimit, hstep⟩

theorem like_runFrom (hcall : L.Calls call call') (hsignature : d'.signature = d.signature)
    {code : Stream} (hcode : ∀ i ∈ code, L.Allowed i.op) {rest : List Value}
    {bound bound' p : Nat} (hbound : bound ≤ bound') {w : L.World} {f f' : Frame}
    (hf : L.Frames w rest f f') {s s' t : Machine} {v : Value} (hs : L.state w s s')
    (hrun : (⟨m, d⟩ : Site).runFrom call code bound p f s = (.ok v, t)) :
    ∃ w' v' t', L.le w w' ∧ L.state w' t t'
      ∧ (⟨m', d'⟩ : Site).runFrom call' code bound' p f' s' = (.ok v', t')
      ∧ L.Values w' v v' := by
  -- by induction on the bound of the first run: the second one may go on for longer, and each
  -- instruction enlarges the world in which the two are alike
  induction bound generalizing bound' p w f f' s s' with
  | zero => cases (Prod.mk.inj hrun).1
  | succ bound ih =>
    obtain ⟨bound', rfl⟩ : ∃ n, bound' = n + 1 := ⟨bound' - 1, by omega⟩
    have hbound : bound ≤ bound' := Nat.le_of_succ_le_succ hbound
    obtain ⟨i, way, s₁, hi, hdoes, hrest⟩ := Site.runFrom_ok hrun
    obtain ⟨w₁, way', s₁', hle₁, hs₁, hway, hdoes'⟩ :=
      like_does hcall hsignature (hcode i (List.mem_of_getElem? hi)) hf hs hdoes
    rw [Site.runFrom_succ hi hdoes']
    unfold Site.continue? at hrest ⊢
    cases hway with
    | next hg =>
      obtain ⟨w₂, v', t', hle₂, ht, hrun', hv⟩ := ih hbound hg hs₁ hrest
      exact ⟨w₂, v', t', L.le_trans hle₁ hle₂, ht, hrun', hv⟩
    | done hv =>
      obtain ⟨hvalue, rfl⟩ := Prod.mk.inj hrest
      cases hvalue
      exact ⟨w₁, _, s₁', hle₁, hs₁, rfl, hv⟩
    | jump l hg =>
      cases hl : code.lastPosition? l with
      | none =>
        simp only [hl] at hrest
        cases (Prod.mk.inj hrest).1
      | some q =>
        simp only [hl] at hrest ⊢
        obtain ⟨w₂, v', t', hle₂, ht, hrun', hv⟩ := ih hbound hg hs₁ hrest
        exact ⟨w₂, v', t', L.le_trans hle₁ hle₂, ht, hrun', hv⟩

theorem frames_start (body : Body) {args args' : List Value}
    (h : List.Forall₂ (L.Values w) args args') :
    L.Frames w [] { arguments := args, slots := (⟨m, d⟩ : Site).startSlots body }
      { arguments := args', slots := (⟨m', d'⟩ : Site).startSlots body } := by
  refine ⟨h, ⟨_, (List.append_nil _).symm, ?_⟩, .nil⟩
  unfold Site.startSlots
  refine List.forall₂_map_left_iff.mpr (List.forall₂_map_right_iff.mpr (List.forall₂_same.mpr ?_))
  intro x _
  dsimp only
  split
  · exact values_defaultOf x.1
  · exact .null

theorem like_startFrame (hsignature : d'.signature = d.signature) (body : Body)
    {this this' : Option Value} {args args' : List Value}
    (hthis : Option.Rel (L.Values w) this this') (h : List.Forall₂ (L.Values w) args args') :
    L.Like w (fun w => L.Frames w []) ((⟨m, d⟩ : Site).startFrame body this args)
      ((⟨m', d'⟩ : Site).startFrame body this' args') := by
  unfold Site.startFrame
  simp only [Module.Alike.isStatic_eq hsignature]
  split
  · exact .pure (frames_start body h)
  · cases hthis with
    | none => exact .fault
    | some hv => exact .pure (frames_start body (.cons hv h))

theorem like_runBody (hcall : L.Calls call call') (hsignature : d'.signature = d.signature)
    {body : Body} (hbody : d.body = some body) (hbody' : d'.body = some body)
    (hcode : ∀ i ∈ body.code, L.Allowed i.op) {this this' : Option Value}
    {args args' : List Value} (hthis : Option.Rel (L.Values w) this this')
    (h : List.Forall₂ (L.Values w) args args') :
    L.Like w (fun w => L.Values w) ((⟨m, d⟩ : Site).runBody call this args)
      ((⟨m', d'⟩ : Site).runBody call' this' args') := by
  unfold Site.runBody
  simp only [hbody, hbody']
  refine (like_startFrame hsignature body hthis h).bind fun w₁ f f' _ hf => ?_
  intro s s' v t hs hrun
  -- inside, the states are alike in a nested world, and `hup` leads back to that of the caller
  obtain ⟨w₀, hdown, hs₀, hup⟩ := L.nest hs
  cases hin : (⟨m, d⟩ : Site).run call body.code f { s with depth := s.depth + 1 } with
  | mk result u =>
    have hrun : (result, { u with depth := u.depth - 1 }) = (.ok v, t) := by
      have hwhole : (((⟨m, d⟩ : Site).run call body.code f { s with depth := s.depth + 1 }).1,
          { ((⟨m, d⟩ : Site).run call body.code f { s with depth := s.depth + 1 }).2 with
            depth := ((⟨m, d⟩ : Site).run call body.code f
              { s with depth := s.depth + 1 }).2.depth - 1 }) = (.ok v, t) := hrun
      rwa [hin] at hwhole
    obtain ⟨rfl, rfl⟩ := Prod.mk.inj hrun
    have hroom : s.limit - s.executed + 1 ≤ s'.limit - s'.executed + 1 :=
      Nat.succ_le_succ (L.room hs)
    obtain ⟨w₂, v', u', hle₂, hu, hin', hv⟩ :=
      like_runFrom hcall hsignature hcode hroom (hf.of_refs hdown) hs₀ hin
    obtain ⟨w₃, hle₃, hkeep, ht⟩ := hup hle₂ hu
    refine ⟨w₃, v', { u' with depth := u'.depth - 1 }, hle₃, ht, ?_, hv.grow hkeep⟩
    · have hin'' : (⟨m', d'⟩ : Site).run call' body.code f' { s' with depth := s'.depth + 1 }
          = (.ok v', u') := hin'
      show (((⟨m', d'⟩ : Site).run call' body.code f' { s' with depth := s'.depth + 1 }).1,
        { ((⟨m', d'⟩ : Site).run call' body.code f' { s' with depth := s'.depth + 1 }).2 with
          depth := ((⟨m', d'⟩ : Site).run call' body.code f'
            { s' with depth := s'.depth + 1 }).2.depth - 1 }) = _
      rw [hin'']

/-! ## Hooks -/

theorem tryCatch_run {α : Type} (a : Action α) (e : Error → Error) (s : Machine) :
    (tryCatch a fun cause => throw (e cause) : Action α).run.run s
      = match a.run.run s with
        | (.ok x, t) => (.ok x, t)
        | (.error cause, t) => (.error (e cause), t) := by
  simp only [tryCatch, tryCatchThe, MonadExceptOf.tryCatch, ExceptT.tryCatch, ExceptT.run,
    ExceptT.mk, StateT.run, bind, StateT.bind]
  rcases a s with ⟨_ | _, _⟩ <;> rfl

theorem like_tryCatch {α β : Type} {results : L.World → α → β → Prop} {a : Action α}
    {a' : Action β} {e e' : Error → Error} (h : L.Like w results a a') :
    L.Like w results (tryCatch a fun cause => throw (e cause))
      (tryCatch a' fun cause => throw (e' cause)) := by
  intro s s' x t hs hrun
  rw [tryCatch_run] at hrun
  cases ha : a.run.run s with
  | mk result u =>
    rw [ha] at hrun
    cases result with
    | error cause => cases (Prod.mk.inj hrun).1
    | ok y =>
      obtain ⟨hy, rfl⟩ := Prod.mk.inj hrun
      cases hy
      obtain ⟨w', x', t', hle, ht, ha', hx⟩ := h hs ha
      refine ⟨w', x', t', hle, ht, ?_, hx⟩
      rw [tryCatch_run, ha']

theorem like_askHook (hcall : L.Calls call call') (hsignature : d'.signature = d.signature)
    {h : Hook} (hanswers : ∀ v, h.action = .answer (some v) → L.Values w v v)
    (hfree : h.action = .runtime .addHandler ∨ h.action = .runtime .removeHandler →
      L.Subscribing)
    {this this' : Option Value} {args args' : List Value}
    (hthis : Option.Rel (L.Values w) this this') (hargs : List.Forall₂ (L.Values w) args args') :
    L.Like w (fun w => Option.Rel (L.Values w)) ((⟨m, d⟩ : Site).askHook call h this args)
      ((⟨m', d'⟩ : Site).askHook call' h this' args') := by
  have hvoid : ∀ {w₁ v v'}, Option.Rel (L.Values w₁) v v' →
      L.Values w₁ (v.getD .void) (v'.getD .void) := by
    intro w₁ v v' hv
    cases hv with
    | none => exact .void
    | some hv => exact hv
  unfold Site.askHook
  cases haction : h.action with
  | proceed => exact .pure .none
  | refuse text => exact .throw
  | answer v =>
    cases v with
    | none => exact .pure (.some .void)
    | some v => exact .pure (.some (hanswers v haction))
  | answerReceiver => exact .pure (.some (hvoid hthis))
  | answerArgument k => exact .pure (.some (hvoid (getElem?_rel hargs k)))
  | runtime member =>
    simp only [Module.Alike.isSome_body_eq hsignature, Module.Alike.name_eq hsignature]
    split
    · exact .pure .none
    · have hmember : member = .addHandler ∨ member = .removeHandler → L.Subscribing := by
        rintro (rfl | rfl)
        · exact hfree (.inl haction)
        · exact hfree (.inr haction)
      refine like_tryCatch ((like_answerFor hcall hmember hthis hargs).bind fun w₁ v v' _ hv => ?_)
      exact .pure (.some (hvoid hv))

theorem like_answer (hcall : L.Calls call call') (hsignature : d'.signature = d.signature)
    {i : MethodId} (hi : L.callable i) (hd : m.method? i = some d)
    {this this' : Option Value} {args args' : List Value}
    (hthis : Option.Rel (L.Values w) this this') (hargs : List.Forall₂ (L.Values w) args args') :
    L.Like w (fun w => Option.Rel (L.Values w)) ((⟨m, d⟩ : Site).answer call this args)
      ((⟨m', d'⟩ : Site).answer call' this' args') := by
  unfold Site.answer
  refine like_get.bind fun w₁ s s' hle₁ hs => ?_
  rw [L.hooks hs, L.modules.callName hsignature]
  cases hfind : s.hooks.find? (⟨m, d⟩ : Site).callName with
  | none => exact .pure .none
  | some h =>
    have hmem : h ∈ s.hooks := List.mem_of_find?_eq_some hfind
    exact like_askHook hcall hsignature (fun v => L.answers hs hmem)
      (L.subscribes hs hi hd hfind) (Worlds.rel_mono (fun _ _ => values_mono hle₁) hthis)
      (list_mono hle₁ hargs)

/-! ## Calls -/

/-- The bodies that a method has in the two modules are alike, with the given calls. -/
def Bodies (L : Likeness m m') (call call' : Call) (i : MethodId) : Prop :=
  ∀ ⦃d d'⦄, m.method? i = some d → m'.method? i = some d' → ∀ ⦃w this this' args args'⦄,
    Option.Rel (L.Values w) this this' → List.Forall₂ (L.Values w) args args' →
      L.Like w (fun w => L.Values w) ((⟨m, d⟩ : Site).runBody call this args)
        ((⟨m', d'⟩ : Site).runBody call' this' args')

theorem like_invokeWith (hcall : L.Calls call call') {i : MethodId} (hi : L.callable i)
    (hbodies : L.Bodies call call' i) {this this' : Option Value} {args args' : List Value}
    (hthis : Option.Rel (L.Values w) this this') (hargs : List.Forall₂ (L.Values w) args args') :
    L.Like w (fun w => L.Values w) (Action.invokeWith m call i this args)
      (Action.invokeWith m' call' i this' args') := by
  unfold Action.invokeWith
  cases hd : m.method? i with
  | none => exact .throw
  | some d =>
    obtain ⟨d', hd', hsignature⟩ := L.modules.method? hd
    simp only [hd']
    refine like_get.bind fun w₁ s s' hle₁ hs => ?_
    rw [L.depth hs]
    split
    · exact .fault
    · have hname : (⟨m', d'⟩ : Site).name = (⟨m, d⟩ : Site).name := L.modules.methodName hsignature
      rw [Module.Alike.token_eq hsignature, hname]
      refine (like_know hi hd).bind fun w₂ _ _ hle₂ _ => ?_
      refine (like_record (.called _)).bind fun w₃ _ _ hle₃ _ => ?_
      have hle := L.le_trans (L.le_trans hle₁ hle₂) hle₃
      refine (like_answer hcall hsignature hi hd (optional_mono hle hthis)
        (list_mono hle hargs)).bind fun w₄ v v' hle₄ hv => ?_
      have hle' := L.le_trans hle hle₄
      cases hv with
      | none => exact hbodies hd hd' (optional_mono hle' hthis) (list_mono hle' hargs)
      | some hv => exact .pure hv

/-- Calls of all depths are alike if the bodies are, whatever the calls they make. -/
theorem calls_invokeAt
    (h : ∀ ⦃call call' i⦄, L.Calls call call' → L.callable i → L.Bodies call call' i)
    {bound bound' : Nat} (hbound : bound ≤ bound') :
    L.Calls (Action.invokeAt m bound) (Action.invokeAt m' bound') := by
  induction bound generalizing bound' with
  | zero => exact fun _ _ _ _ _ _ _ _ _ => .fault
  | succ bound ih =>
    obtain ⟨bound', rfl⟩ : ∃ n, bound' = n + 1 := ⟨bound' - 1, by omega⟩
    have hcalls := ih (Nat.le_of_succ_le_succ hbound)
    intro w i this this' args args' hi hthis hargs
    exact like_invokeWith hcalls hi (h hcalls hi) hthis hargs

/-- Calls that never come to one method need nothing of that method's bodies. -/
theorem calls_invokeAvoiding {stop : MethodId}
    (h : ∀ ⦃call call' i⦄, L.Calls call call' → L.callable i → i ≠ stop → L.Bodies call call' i)
    {bound bound' : Nat} (hbound : bound ≤ bound') :
    L.Calls (Action.invokeAvoiding m stop bound) (Action.invokeAt m' bound') := by
  induction bound generalizing bound' with
  | zero => exact fun _ _ _ _ _ _ _ _ _ => .fault
  | succ bound ih =>
    obtain ⟨bound', rfl⟩ : ∃ n, bound' = n + 1 := ⟨bound' - 1, by omega⟩
    have hcalls := ih (Nat.le_of_succ_le_succ hbound)
    intro w i this this' args args' hi hthis hargs
    unfold Action.invokeAvoiding
    by_cases hstop : i = stop
    · rw [if_pos hstop]
      exact .fault
    · rw [if_neg hstop]
      exact like_invokeWith hcalls hi (h hcalls hi hstop) hthis hargs

end Likeness

end SetterLoom
