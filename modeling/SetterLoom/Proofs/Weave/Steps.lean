import SetterLoom.Weave.Setter

/-!
# Steps of an edit, one after the other

Edits run in a state and may fail, and the state they leave is kept when they do. A sequence of steps
succeeds if every step does, each in the state that the one before it left.

* `bind_ok`: what a successful sequence is made of.
* `Within`: relations between the states before and behind, whether the steps succeed or not.
-/

namespace SetterLoom
set_option autoImplicit false

namespace Steps

variable {α β σ : Type} {s s' : σ}

theorem bind_run (x : ExceptT Error (StateM σ) α) (f : α → ExceptT Error (StateM σ) β) (s : σ) :
    (x >>= f).run.run s = match x.run.run s with
      | (.ok a, s₁) => (f a).run.run s₁
      | (.error e, s₁) => (.error e, s₁) := by
  show (ExceptT.bind x f).run.run s = _
  simp only [ExceptT.bind, ExceptT.run, ExceptT.mk, StateT.run, bind, StateT.bind]
  cases h : x s with
  | mk result s₁ => cases result <;> rfl

theorem tryCatch_run (x : ExceptT Error (StateM σ) α) (f : Error → ExceptT Error (StateM σ) α)
    (s : σ) :
    (tryCatch x f).run.run s = match x.run.run s with
      | (.ok a, s₁) => (.ok a, s₁)
      | (.error e, s₁) => (f e).run.run s₁ := by
  show (ExceptT.tryCatch x f).run.run s = _
  simp only [ExceptT.tryCatch, ExceptT.run, ExceptT.mk, StateT.run, bind, StateT.bind]
  cases h : x s with
  | mk result s₁ => cases result <;> rfl

theorem exists_of_fst {x : α × σ} {a : α} (h : x.1 = a) : ∃ t, x = (a, t) := ⟨x.2, by rw [← h]⟩

theorem bind_ok {x : ExceptT Error (StateM σ) α} {f : α → ExceptT Error (StateM σ) β} {b : β} :
    (x >>= f).run.run s = (.ok b, s')
      ↔ ∃ a s₁, x.run.run s = (.ok a, s₁) ∧ (f a).run.run s₁ = (.ok b, s') := by
  rw [bind_run]
  cases h : x.run.run s with
  | mk result s₁ =>
    cases result with
    | ok a =>
      constructor
      · exact fun hf => ⟨a, s₁, rfl, hf⟩
      · rintro ⟨a', s₁', heq, hf⟩
        cases heq
        exact hf
    | error e =>
      constructor
      · intro he
        cases he
      · rintro ⟨a', s₁', heq, -⟩
        cases heq

theorem bind_cases {x : ExceptT Error (StateM σ) α} {f : α → ExceptT Error (StateM σ) β}
    {result : Except Error β} (h : (x >>= f).run.run s = (result, s')) :
    (∃ e, x.run.run s = (.error e, s') ∧ result = .error e)
      ∨ ∃ a s₁, x.run.run s = (.ok a, s₁) ∧ (f a).run.run s₁ = (result, s') := by
  rw [bind_run] at h
  cases hx : x.run.run s with
  | mk first s₁ =>
    rw [hx] at h
    cases first with
    | error e =>
      obtain ⟨rfl, rfl⟩ := Prod.mk.inj h
      exact .inl ⟨e, rfl, rfl⟩
    | ok a => exact .inr ⟨a, s₁, rfl, h⟩

private theorem ok_iff {a b : α} : ((.ok a, s) : Except Error α × σ) = (.ok b, s') ↔ b = a ∧ s' = s := by
  simp only [Prod.mk.injEq, Except.ok.injEq]
  constructor
  · rintro ⟨rfl, rfl⟩
    exact ⟨rfl, rfl⟩
  · rintro ⟨rfl, rfl⟩
    exact ⟨rfl, rfl⟩

theorem pure_ok {a b : α} :
    (pure a : ExceptT Error (StateM σ) α).run.run s = (.ok b, s') ↔ b = a ∧ s' = s :=
  ok_iff

theorem throw_not_ok {e : Error} {b : α} :
    (throw e : ExceptT Error (StateM σ) α).run.run s ≠ (.ok b, s') := by
  intro h
  have h' : ((.error e, s) : Except Error α × σ) = (.ok b, s') := h
  simp at h'

theorem get_ok {t : σ} :
    (get : ExceptT Error (StateM σ) σ).run.run s = (.ok t, s') ↔ t = s ∧ s' = s :=
  ok_iff

theorem liftExcept_ok {x : Except Error α} {b : α} :
    (liftM x : ExceptT Error (StateM σ) α).run.run s = (.ok b, s') ↔ x = .ok b ∧ s' = s := by
  cases x with
  | ok a => exact ok_iff.trans (by rw [Except.ok.injEq, eq_comm])
  | error e =>
    show ((.error e, s) : Except Error α × σ) = (.ok b, s') ↔ _
    simp

/-! ## What every run keeps -/

section Within

variable {R : σ → σ → Prop}

/-- Every run of the steps leaves a state that is related to the one before. -/
def Within (R : σ → σ → Prop) (x : ExceptT Error (StateM σ) α) : Prop := ∀ s, R s (x.run.run s).2

section Transitive

variable (htrans : ∀ {s t u}, R s t → R t u → R s u)
include htrans

theorem within_bind {x : ExceptT Error (StateM σ) α} {f : α → ExceptT Error (StateM σ) β}
    (hx : Within R x) (hf : ∀ a, Within R (f a)) : Within R (x >>= f) := by
  intro s
  have hfirst := hx s
  rw [bind_run]
  cases hs : x.run.run s with
  | mk result s₁ =>
    rw [hs] at hfirst
    cases result with
    | ok a => exact htrans hfirst (hf a s₁)
    | error e => exact hfirst

theorem within_tryCatch {x : ExceptT Error (StateM σ) α} {f : Error → ExceptT Error (StateM σ) α}
    (hx : Within R x) (hf : ∀ e, Within R (f e)) : Within R (tryCatch x f) := by
  intro s
  have hfirst := hx s
  rw [tryCatch_run]
  cases hs : x.run.run s with
  | mk result s₁ =>
    rw [hs] at hfirst
    cases result with
    | ok a => exact hfirst
    | error e => exact htrans hfirst (hf e s₁)

end Transitive

section Reflexive

variable (hrefl : ∀ s, R s s)
include hrefl

theorem within_pure (a : α) : Within R (pure a) := hrefl

theorem within_throw (e : Error) : Within R (throw e : ExceptT Error (StateM σ) α) := hrefl

theorem within_get : Within R (get : ExceptT Error (StateM σ) σ) := hrefl

theorem within_lift (x : Except Error α) : Within R (liftM x : ExceptT Error (StateM σ) α) := by
  cases x <;> exact hrefl

theorem within_foldlM (htrans : ∀ {s t u}, R s t → R t u → R s u) {f : β → α → ExceptT Error (StateM σ) β}
    (hf : ∀ b a, Within R (f b a)) (l : List α) (b : β) : Within R (l.foldlM f b) := by
  induction l generalizing b with
  | nil => exact within_pure hrefl b
  | cons a rest ih =>
    rw [List.foldlM_cons]
    exact within_bind (R := R) htrans (hf b a) ih

theorem within_forM (htrans : ∀ {s t u}, R s t → R t u → R s u) {f : α → ExceptT Error (StateM σ) Unit}
    (hf : ∀ a, Within R (f a)) (l : List α) : Within R (l.forM f) := by
  induction l with
  | nil => exact within_pure hrefl ()
  | cons a rest ih => exact within_bind (R := R) htrans (hf a) fun _ => ih

end Reflexive

end Within

end Steps

end SetterLoom
