import SetterLoom.Proofs.Machine.Upheld

/-!
# Running code, upheld

One instruction agrees with itself as far as the calls do that it makes. A body is run one level deeper, and
counts its instructions before it calls anything; so what is asked of its calls is asked of states that are
further on.

* `agree_step`: one instruction.
* `agree_runFrom`: a run of code.
* `agree_invokeWith`: one call, and `calls_invoke`: all calls.
-/

namespace SetterLoom
set_option autoImplicit false

namespace Site

variable {c : Site} {call : Call} {code : Stream} {p bound : Nat} {f : Frame} {s : Machine}

/-- The rest of a run, as an action. -/
def onward (c : Site) (call : Call) (code : Stream) (bound p : Nat) (way : Step) : Action Value :=
  fun s => c.continue? call code bound p way s

theorem onward_run {way : Step} :
    (c.onward call code bound p way).run.run s = c.continue? call code bound p way s :=
  rfl

theorem runFrom_past (hi : code[p]? = none) :
    c.runFrom call code (bound + 1) p f s = (.error (.emulation (.pastTheEnd c.name)), s) := by
  rw [runFrom, hi]

theorem runFrom_counted {i : Instruction} (hi : code[p]? = some i) (hlimit : s.executed < s.limit) :
    c.runFrom call code (bound + 1) p f s
      = (c.step call i.op f >>= c.onward call code bound p).run.run
          { s with executed := s.executed + 1 } := by
  rw [Action.bind_run, runFrom, hi]
  simp only [if_neg (Nat.not_le.mpr hlimit), onward_run]
  cases hstep : (c.step call i.op f).run.run { s with executed := s.executed + 1 } with
  | mk result u =>
    rw [show c.step call i.op f { s with executed := s.executed + 1 } = (result, u) from hstep]
    cases result with
    | error e => rfl
    | ok way => cases way <;> rfl

end Site

namespace Upkeep

variable {m : Module} {U : Upkeep m} {s t : Machine} {call call' : Call} {d : Method} {f : Frame}

theorem value_defaultOf (S : Scope) (m : Module) (t : TypeId) : S.Value (m.defaultOf t) := by
  unfold Module.defaultOf
  split
  · unfold TypeDef.default
    split <;> trivial
  · trivial

section Instructions

variable (hs : U.inv s)
include hs

/-! ## The stack -/

theorem agree_unexpected {α : Type} {results : Machine → α → Prop} (c : Site) (code : OpCode) :
    U.Agree s results (c.unexpected code) (c.unexpected code) :=
  agree_fault hs rfl rfl

variable (hf : (U.scope s).Frame f)
include hf

theorem agree_pop (c : Site) :
    U.Agree s (fun u x => (U.scope u).Value x.1 ∧ (U.scope u).Frame x.2) (c.pop f) (c.pop f) := by
  unfold Site.pop
  split
  · rename_i v stack hstack
    have hall := hf.stack
    rw [hstack] at hall
    obtain ⟨hv, hrest⟩ := List.forall_mem_cons.mp hall
    exact agree_pure hs ⟨hv, hf.arguments, hf.slots, hrest⟩
  · exact agree_fault hs rfl rfl

theorem agree_popMany (c : Site) (count : Nat) :
    U.Agree s (fun u x => (∀ v ∈ x.1, (U.scope u).Value v) ∧ (U.scope u).Frame x.2) (c.popMany f count)
      (c.popMany f count) := by
  unfold Site.popMany Frame.popMany?
  by_cases hcount : count ≤ f.stack.length
  · rw [if_pos hcount]
    refine agree_pure hs ⟨fun v hv => hf.stack v ?_, hf.arguments, hf.slots, fun v hv => hf.stack v ?_⟩
    · exact List.mem_of_mem_take (List.mem_reverse.mp hv)
    · exact List.mem_of_mem_drop hv
  · rw [if_neg hcount]
    exact agree_fault hs rfl rfl

omit hf in
theorem agree_object (c : Site) {v : Value} (hv : (U.scope s).Value v) :
    U.Agree s (fun u r => (U.scope u).ref r) (c.object v) (c.object v) := by
  unfold Site.object
  split
  · exact agree_pure hs hv
  · exact agree_fault hs rfl rfl

theorem agree_pushFound (c : Site) (code : OpCode) {found : Option Value}
    (hfound : ∀ v, found = some v → (U.scope s).Value v) :
    U.Agree s (fun u way => (U.scope u).Step way) (c.pushFound code f found) (c.pushFound code f found) := by
  unfold Site.pushFound
  split
  · rename_i v
    exact agree_pure hs (hf.push (hfound v rfl))
  · exact agree_unexpected hs c code

/-! ## Slots and fields -/

theorem agree_storeSlot (c : Site) (k : Nat) :
    U.Agree s (fun u way => (U.scope u).Step way) (c.storeSlot f k) (c.storeSlot f k) := by
  refine (agree_pop hs hf c).bind fun s₁ x _ hs₁ hx => ?_
  obtain ⟨v, g⟩ := x
  dsimp only
  split
  · refine agree_pure hs₁ ⟨hx.2.arguments, fun w hw => ?_, hx.2.stack⟩
    rcases List.mem_or_eq_of_mem_set hw with hw | rfl
    · exact hx.2.slots w hw
    · exact hx.1
  · exact agree_unexpected hs₁ c _

theorem agree_loadField (c : Site) (field : Field) :
    U.Agree s (fun u way => (U.scope u).Step way) (c.loadField f field) (c.loadField f field) := by
  refine (agree_pop hs hf c).bind fun s₁ x _ hs₁ hx => ?_
  refine (agree_object hs₁ c hx.1).bind fun s₂ r hle₂ hs₂ hr => ?_
  refine (agree_heap_getField hs₂ hr _).bind fun s₃ stored hle₃ hs₃ hstored => agree_pure hs₃ ?_
  refine ((U.grow (U.trans hle₂ hle₃)).frame hx.2).push ?_
  cases stored with
  | none => exact value_defaultOf _ _ _
  | some v => exact hstored v rfl

theorem agree_storeField (c : Site) (field : Field) :
    U.Agree s (fun u way => (U.scope u).Step way) (c.storeField f field) (c.storeField f field) := by
  refine (agree_pop hs hf c).bind fun s₁ x _ hs₁ hx => ?_
  refine (agree_pop hs₁ hx.2 c).bind fun s₂ y hle₂ hs₂ hy => ?_
  refine (agree_object hs₂ c hy.1).bind fun s₃ r hle₃ hs₃ hr => ?_
  refine (agree_setField hs₃ hr _ ((U.grow (U.trans hle₂ hle₃)).value hx.1)).bind
    fun s₄ _ hle₄ hs₄ _ => agree_pure hs₄ ?_
  exact (U.grow (U.trans hle₃ hle₄)).frame hy.2

theorem agree_loadAddress (c : Site) (field : Field) :
    U.Agree s (fun u way => (U.scope u).Step way) (c.loadAddress f field) (c.loadAddress f field) := by
  refine (agree_pop hs hf c).bind fun s₁ x _ hs₁ hx => ?_
  refine (agree_object hs₁ c hx.1).bind fun s₂ r hle₂ hs₂ hr => agree_pure hs₂ ?_
  exact ((U.grow hle₂).frame hx.2).push (v := .address r field.token) hr

theorem agree_initialise (c : Site) (type : TypeId) :
    U.Agree s (fun u way => (U.scope u).Step way) (c.initialise f type) (c.initialise f type) := by
  refine (agree_pop hs hf c).bind fun s₁ x _ hs₁ hx => ?_
  obtain ⟨v, g⟩ := x
  dsimp only
  split
  · refine (agree_setField hs₁ hx.1 _ (value_defaultOf _ _ _)).bind
      fun s₂ _ hle₂ hs₂ _ => agree_pure hs₂ ?_
    exact (U.grow hle₂).frame hx.2
  · exact agree_unexpected hs₁ c _

theorem agree_boxTop (c : Site) (type : TypeId) :
    U.Agree s (fun u way => (U.scope u).Step way) (c.boxTop f type) (c.boxTop f type) := by
  refine (agree_pop hs hf c).bind fun s₁ x _ hs₁ hx => ?_
  obtain ⟨v, g⟩ := x
  dsimp only
  split
  · rename_i e _
    refine (agree_alloc hs₁ (o := .boxed e.token v) hx.1).bind fun s₂ r hle₂ hs₂ hr => agree_pure hs₂ ?_
    exact ((U.grow hle₂).frame hx.2).push (v := .ref r) hr
  · exact agree_pure hs₁ (hx.2.push hx.1)

/-! ## Calls -/

theorem agree_loadFunction {i : MethodId} (hi : U.Loads i) :
    U.Agree s (fun u way => (U.scope u).Step way) ((⟨m, d⟩ : Site).loadFunction f i)
      ((⟨m, d⟩ : Site).loadFunction f i) := by
  unfold Site.loadFunction
  split
  · rename_i e he
    refine (agree_load hs he hi).bind fun s₁ _ hle₁ hs₁ hpointer => agree_pure hs₁ ?_
    exact ((U.grow hle₁).frame hf).push (v := .function e.token) hpointer
  · exact agree_unexpected hs _ _

variable (hcalls : U.Calls s call call')
include hcalls

theorem agree_newObject (i : MethodId) :
    U.Agree s (fun u way => (U.scope u).Step way) ((⟨m, d⟩ : Site).newObject call f i)
      ((⟨m, d⟩ : Site).newObject call' f i) := by
  unfold Site.newObject
  dsimp only
  split
  · rename_i e _
    refine (agree_popMany hs hf _ _).bind fun s₁ x hle₁ hs₁ hx => ?_
    refine (agree_construct hs₁ (hcalls.later hle₁).to hx.1).bind fun s₂ v hle₂ hs₂ hv =>
      agree_pure hs₂ ?_
    exact ((U.grow hle₂).frame hx.2).push hv
  · exact agree_unexpected hs _ _

omit hf in
theorem agree_callOnObject (i : MethodId) (e : Method) {r : HeapRef} (hr : (U.scope s).ref r)
    {arguments : List Value} (harguments : ∀ v ∈ arguments, (U.scope s).Value v) :
    U.Agree s (fun u v => (U.scope u).Value v) ((⟨m, d⟩ : Site).callOnObject call i e r arguments)
      ((⟨m, d⟩ : Site).callOnObject call' i e r arguments) := by
  refine (agree_heap_get hs hr).bind fun s₁ o hle₁ hs₁ _ => ?_
  have hr₁ := (U.grow hle₁).ref r hr
  have harguments₁ := values_later hle₁ harguments
  split
  · exact (agree_invokeDelegate hs₁ (hcalls.later hle₁).to hr₁ harguments₁).bind
      fun s₂ _ _ hs₂ _ => agree_pure hs₂ trivial
  · refine (agree_dispatch hs₁ hr₁ i e).bind fun s₂ j hle₂ hs₂ _ => ?_
    refine hcalls (U.trans hle₁ hle₂) hs₂ (fun v hv => ?_) (values_later hle₂ harguments₁)
    obtain rfl := Option.some.inj hv
    exact (U.grow hle₂).ref r hr₁

omit hf in
theorem agree_callOn (code : OpCode) (i : MethodId) (e : Method) {this : Value}
    (hthis : (U.scope s).Value this) {arguments : List Value}
    (harguments : ∀ v ∈ arguments, (U.scope s).Value v) :
    U.Agree s (fun u v => (U.scope u).Value v) ((⟨m, d⟩ : Site).callOn call code i e this arguments)
      ((⟨m, d⟩ : Site).callOn call' code i e this arguments) := by
  have hdirect : U.Agree s (fun u v => (U.scope u).Value v) (call i (some this) arguments)
      (call' i (some this) arguments) :=
    hcalls (U.refl s) hs (fun v hv => Option.some.inj hv ▸ hthis) harguments
  unfold Site.callOn
  split
  · exact agree_callOnObject hs hcalls i e hthis harguments
  · exact agree_fault hs rfl rfl
  · exact hdirect

theorem agree_callMethod (code : OpCode) (i : MethodId) :
    U.Agree s (fun u way => (U.scope u).Step way) ((⟨m, d⟩ : Site).callMethod call f code i)
      ((⟨m, d⟩ : Site).callMethod call' f code i) := by
  have hpushed : ∀ {u v g} {e : Method}, U.inv u → (U.scope u).Value v → (U.scope u).Frame g →
      (U.scope u).Step (.next (if e.returns.isSome then g.push v else g)) := by
    intro u v g e _ hv hg
    show (U.scope u).Frame _
    split
    · exact hg.push hv
    · exact hg
  unfold Site.callMethod
  dsimp only
  split
  · exact agree_unexpected hs _ _
  · rename_i e _
    refine (agree_popMany hs hf _ _).bind fun s₁ x hle₁ hs₁ hx => ?_
    obtain ⟨arguments, g⟩ := x
    dsimp only
    split
    · have hcalled : U.Agree s₁ (fun u v => (U.scope u).Value v) (call i none arguments)
          (call' i none arguments) :=
        hcalls hle₁ hs₁ (fun _ hv => nomatch hv) hx.1
      refine hcalled.bind
        fun s₂ v hle₂ hs₂ hv => agree_pure hs₂ ?_
      exact hpushed hs₂ hv ((U.grow hle₂).frame hx.2)
    · refine (agree_pop hs₁ hx.2 _).bind fun s₂ y hle₂ hs₂ hy => ?_
      refine (agree_callOn hs₂ (hcalls.later (U.trans hle₁ hle₂)) code i e hy.1
        (values_later hle₂ hx.1)).bind fun s₃ v hle₃ hs₃ hv => agree_pure hs₃ ?_
      exact hpushed hs₃ hv ((U.grow hle₃).frame hy.2)

/-! ## Branches and the end -/

omit hcalls in
theorem agree_branchIf (c : Site) (truth : Bool) (l : Label) :
    U.Agree s (fun u way => (U.scope u).Step way) (c.branchIf f truth l) (c.branchIf f truth l) := by
  refine (agree_pop hs hf c).bind fun s₁ x _ hs₁ hx => agree_pure hs₁ ?_
  split <;> exact hx.2

omit hcalls in
theorem agree_compareTop (c : Site) :
    U.Agree s (fun u way => (U.scope u).Step way) (c.compareTop f) (c.compareTop f) := by
  refine (agree_pop hs hf c).bind fun s₁ x _ hs₁ hx => ?_
  exact (agree_pop hs₁ hx.2 c).bind fun s₂ y _ hs₂ hy => agree_pure hs₂ (hy.2.push trivial)

omit hcalls in
theorem agree_duplicate (c : Site) :
    U.Agree s (fun u way => (U.scope u).Step way) (c.duplicate f) (c.duplicate f) :=
  (agree_pop hs hf c).bind fun _ _ _ hs₁ hx => agree_pure hs₁ ((hx.2.push hx.1).push hx.1)

omit hcalls in
theorem agree_dropTop (c : Site) :
    U.Agree s (fun u way => (U.scope u).Step way) (c.dropTop f) (c.dropTop f) :=
  (agree_pop hs hf c).bind fun _ _ _ hs₁ hx => agree_pure hs₁ hx.2

omit hcalls in
theorem agree_returnTop (c : Site) :
    U.Agree s (fun u way => (U.scope u).Step way) (c.returnTop f) (c.returnTop f) := by
  unfold Site.returnTop
  split
  · exact (agree_pop hs hf c).bind fun _ _ _ hs₁ hx => agree_pure hs₁ hx.1
  · exact agree_pure hs trivial

/-! ## The instructions -/

theorem agree_step {op : Op} (hop : ∀ i, op.loaded? = some i → U.Loads i) :
    U.Agree s (fun u way => (U.scope u).Step way) ((⟨m, d⟩ : Site).step call op f)
      ((⟨m, d⟩ : Site).step call' op f) := by
  induction op using Op.forms with
  | nop | br => exact agree_pure hs hf
  | ldnull => exact agree_pure hs (hf.push (v := .null) trivial)
  | ldcI4 n => exact agree_pure hs (hf.push (v := .int n) trivial)
  | ceq => exact agree_compareTop hs hf _
  | dup => exact agree_duplicate hs hf _
  | pop => exact agree_dropTop hs hf _
  | ret => exact agree_returnTop hs hf _
  | ldarg => exact agree_pushFound hs hf _ _ fun v hv => hf.arguments v (List.mem_of_getElem? hv)
  | ldloc => exact agree_pushFound hs hf _ _ fun v hv => hf.slots v (List.mem_of_getElem? hv)
  | stloc => exact agree_storeSlot hs hf _ _
  | ldstr text => exact (agree_allocString hs text).map fun _ _ hle _ hv => ((U.grow hle).frame hf).push hv
  | ldfld field => exact agree_loadField hs hf _ field
  | stfld field => exact agree_storeField hs hf _ field
  | ldflda field => exact agree_loadAddress hs hf _ field
  | initobj t => exact agree_initialise hs hf _ t
  | box t => exact agree_boxTop hs hf _ t
  | ldftn use => exact agree_loadFunction hs hf (hop _ rfl)
  | newobj use => exact agree_newObject hs hf hcalls use.method
  | call use | callvirt use => exact agree_callMethod hs hf hcalls _ use.method
  | brtrue l | brfalse l => exact agree_branchIf hs hf _ _ l
  | stuck op hstuck =>
    rw [hstuck, hstuck]
    exact agree_unexpected hs _ _

end Instructions

/-! ## Bodies -/

/-- Behind the first instruction that is counted from a state on, all calls agree. -/
def Within (U : Upkeep m) (s : Machine) (call call' : Call) : Prop :=
  ∀ ⦃t⦄, U.le s t → U.inv t → s.executed < t.executed → U.Calls t call call'

theorem Calls.within (hcalls : U.Calls s call call') : U.Within s call call' :=
  fun _ hle _ _ => hcalls.later hle

theorem agree_continue {code : Stream} {bound p : Nat} {way : Step} (hs : U.inv s)
    (hway : (U.scope s).Step way)
    (hcode : ∀ {q g}, (U.scope s).Frame g → U.Agree s (fun u v => (U.scope u).Value v)
      ((⟨m, d⟩ : Site).runFrom call code bound q g) ((⟨m, d⟩ : Site).runFrom call' code bound q g)) :
    U.Agree s (fun u v => (U.scope u).Value v) ((⟨m, d⟩ : Site).onward call code bound p way)
      ((⟨m, d⟩ : Site).onward call' code bound p way) := by
  cases way with
  | next g => exact hcode hway
  | done v => exact .of_run (.ok v, s) rfl rfl ⟨U.refl s, hs, hway⟩
  | jump l g =>
    cases hq : code.lastPosition? l with
    | none =>
      have hrun : ∀ call, ((⟨m, d⟩ : Site).onward call code bound p (.jump l g)).run.run s
          = (.error (.emulation (.unknownLabel (⟨m, d⟩ : Site).name)), s) := by
        intro call
        rw [Site.onward_run]
        simp only [Site.continue?, hq]
      exact .of_run _ (hrun call) (hrun call') (U.fails hs rfl rfl)
    | some q =>
      have hrun : ∀ call, ((⟨m, d⟩ : Site).onward call code bound p (.jump l g)).run.run s
          = (⟨m, d⟩ : Site).runFrom call code bound q g s := by
        intro call
        rw [Site.onward_run]
        simp only [Site.continue?, hq]
      exact (hcode hway).of_later (U.refl s) (hrun call) (hrun call')

theorem agree_runFrom (hs : U.inv s) (hf : (U.scope s).Frame f) (hwithin : U.Within s call call')
    {code : Stream} (hloads : ∀ x ∈ code, ∀ i, x.op.loaded? = some i → U.Loads i) (bound p : Nat) :
    U.Agree s (fun u v => (U.scope u).Value v ∧ s.executed < u.executed)
      ((⟨m, d⟩ : Site).runFrom call code bound p f)
      ((⟨m, d⟩ : Site).runFrom call' code bound p f) := by
  induction bound generalizing p f s with
  | zero => exact .of_run (.error _, s) rfl rfl (U.fails hs rfl rfl)
  | succ bound ih =>
    cases hi : code[p]? with
    | none => exact .of_run _ (Site.runFrom_past hi) (Site.runFrom_past hi) (U.fails hs rfl rfl)
    | some i =>
      by_cases hlimit : s.limit ≤ s.executed
      · exact .of_run _ (Site.runFrom_limit f bound hi hlimit) (Site.runFrom_limit f bound hi hlimit)
          (U.exceeds hs hlimit)
      · -- the instruction is counted, run, and then the rest is run
        have hlt := Nat.lt_of_not_le hlimit
        obtain ⟨hle, hcounted⟩ := U.count hs hlt
        have hcalls : U.Calls { s with executed := s.executed + 1 } call call' :=
          hwithin hle hcounted (Nat.lt_succ_self _)
        have hrest : U.Agree { s with executed := s.executed + 1 } (fun u v => (U.scope u).Value v)
            ((⟨m, d⟩ : Site).step call i.op f >>= (⟨m, d⟩ : Site).onward call code bound p)
            ((⟨m, d⟩ : Site).step call' i.op f >>= (⟨m, d⟩ : Site).onward call' code bound p) := by
          refine (agree_step hcounted ((U.grow hle).frame hf) hcalls
            (hloads i (List.mem_of_getElem? hi))).bind fun u way hle' hu hway => ?_
          have hfar := U.trans hle hle'
          refine agree_continue hu hway fun hg => (ih hu hg (fun t hut ht hlt => ?_) _).mono
            fun _ _ _ _ hx => hx.1
          exact hwithin (U.trans hfar hut) ht (Nat.lt_of_le_of_lt (U.executed hfar) hlt)
        exact (hrest.mono fun u v hle' _ hv => ⟨hv, U.executed hle'⟩).of_later hle
          (Site.runFrom_counted hi hlt) (Site.runFrom_counted hi hlt)

theorem agree_startFrame (hs : U.inv s) (body : Body) {this : Option Value} {arguments : List Value}
    (hthis : ∀ v, this = some v → (U.scope s).Value v)
    (harguments : ∀ v ∈ arguments, (U.scope s).Value v) :
    U.Agree s (fun u f => (U.scope u).Frame f) ((⟨m, d⟩ : Site).startFrame body this arguments)
      ((⟨m, d⟩ : Site).startFrame body this arguments) := by
  have hslots : ∀ v ∈ (⟨m, d⟩ : Site).startSlots body, (U.scope s).Value v := by
    intro v hv
    obtain ⟨⟨t, index⟩, -, rfl⟩ := List.mem_map.mp hv
    dsimp only
    split
    · exact value_defaultOf _ _ _
    · trivial
  unfold Site.startFrame
  split
  · exact agree_pure hs ⟨harguments, hslots, fun v hv => nomatch hv⟩
  · split
    · rename_i r
      exact agree_pure hs ⟨List.forall_mem_cons.mpr ⟨hthis r rfl, harguments⟩, hslots,
        fun v hv => nomatch hv⟩
    · exact agree_fault hs rfl rfl

theorem agree_runBody (hs : U.inv s) {i : MethodId} (hd : m.method? i = some d)
    (hwithin : ∀ u, U.le s u → U.inv u → U.Within { u with depth := u.depth + 1 } call call')
    {this : Option Value} {arguments : List Value} (hthis : ∀ v, this = some v → (U.scope s).Value v)
    (harguments : ∀ v ∈ arguments, (U.scope s).Value v) :
    U.Agree s (fun u v => (U.scope u).Value v ∧ s.executed < u.executed)
      ((⟨m, d⟩ : Site).runBody call this arguments) ((⟨m, d⟩ : Site).runBody call' this arguments) := by
  unfold Site.runBody
  cases hbody : d.body with
  | none => exact agree_throw hs rfl rfl
  | some body =>
    -- the frame is built before the level is entered, and what is
    -- in scope does not depend on the level
    refine (agree_startFrame hs body hthis harguments).bind fun u f hle hu hf => ?_
    have hnested : U.inv { u with depth := u.depth + 1 } := U.inv_depth hu
    have hf' : (U.scope { u with depth := u.depth + 1 }).Frame f := (U.scope_depth u _).symm ▸ hf
    have hrun := agree_runFrom (d := d) hnested hf' (hwithin u hle hu) (U.loads hd hbody)
      (u.limit - u.executed + 1) 0
    have houtcome := hrun.outcome
    cases hresult : ((⟨m, d⟩ : Site).runFrom call body.code (u.limit - u.executed + 1) 0 f)
        { u with depth := u.depth + 1 } with
    | mk result x =>
      have hresult' : (⟨m, d⟩ : Site).runFrom call' body.code (u.limit - u.executed + 1) 0 f
          { u with depth := u.depth + 1 } = (result, x) := hrun.same.trans hresult
      have houtcome : U.Outcome { u with depth := u.depth + 1 }
          (fun t v => (U.scope t).Value v ∧ u.executed < t.executed) (result, x) :=
        hresult ▸ houtcome
      refine .of_run (result, { x with depth := x.depth - 1 }) ?_ ?_ ?_
      · exact congrArg (fun y => (y.1, { y.2 with depth := y.2.depth - 1 })) hresult
      · exact congrArg (fun y => (y.1, { y.2 with depth := y.2.depth - 1 })) hresult'
      · cases result with
        | error e => exact U.failed_nest houtcome
        | ok v =>
          obtain ⟨hle', hx, hv, hcounted⟩ := houtcome
          have hv' : (U.scope { x with depth := x.depth - 1 }).Value v :=
            (U.scope_depth x _).symm ▸ hv
          exact ⟨U.nest hle', U.inv_depth hx, hv', Nat.lt_of_le_of_lt (U.executed hle) hcounted⟩

/-! ## Calls -/

/-- The machine answers for the method by raising the event. -/
def IsRaiser (m : Module) (i : MethodId) : Prop :=
  ∃ d, m.method? i = some d ∧ d.body = none
    ∧ Machine.withRuntimeMembers.hooks.find? (⟨m, d⟩ : Site).callName = some RuntimeMember.raise.hook

theorem hook_of_mem {h : Hook} (hmem : h ∈ Machine.withRuntimeMembers.hooks) :
    ∃ member : RuntimeMember, h = member.hook := by
  have hall : ∀ hook ∈ Machine.withRuntimeMembers.hooks,
      hook ∈ RuntimeMember.all.map RuntimeMember.hook := by
    decide +kernel
  obtain ⟨member, -, heq⟩ := List.mem_map.mp (hall h hmem)
  exact ⟨member, heq.symm⟩

/-- The machine answers for no member of the name that the method has. -/
def Unanswered (m : Module) (i : MethodId) : Prop :=
  ∀ d, m.method? i = some d →
    Machine.withRuntimeMembers.hooks.find? (⟨m, d⟩ : Site).callName = none

theorem IsConstructor.unanswered {i : MethodId} (hi : IsConstructor m i) : Unanswered m i := by
  obtain ⟨e, he, hname⟩ := hi
  intro d hd
  obtain rfl : e = d := Option.some.inj (he.symm.trans hd)
  refine List.find?_eq_none.mpr fun h hh => ?_
  obtain ⟨member, rfl⟩ := hook_of_mem hh
  have hcall : (⟨m, e⟩ : Site).callName.method = Surface.constructor := hname
  simp only [Hook.fits, NamePattern.fits, Bool.not_eq_true]
  cases member <;>
    simp [RuntimeMember.hook, NamePattern.fitsPart, hcall, Surface.constructor, Surface.equals,
      Surface.adder, Surface.remover, Surface.raiser, Surface.changedEvent]

variable {this : Option Value} {arguments : List Value}

theorem agree_answer (hs : U.inv s) {i : MethodId} (hd : m.method? i = some d)
    (hprepares : IsRaiser m i → U.Prepares s call call')
    (hthis : ∀ v, this = some v → (U.scope s).Value v)
    (harguments : ∀ v ∈ arguments, (U.scope s).Value v) :
    U.Agree s (fun u x => (∀ v, x = some v → (U.scope u).Value v) ∧ (Unanswered m i → x = none))
      ((⟨m, d⟩ : Site).answer call this arguments) ((⟨m, d⟩ : Site).answer call' this arguments) := by
  refine (agree_get hs).bind fun u x hle hu hx => ?_
  obtain ⟨rfl, rfl⟩ := hx
  rw [U.hooks hs]
  -- only hooks of the runtime are installed, so a hook that is found stands for one of its members
  cases hfind : Machine.withRuntimeMembers.hooks.find? (⟨m, d⟩ : Site).callName with
  | none => exact agree_pure hs ⟨fun _ hv => (by cases hv), fun _ => rfl⟩
  | some h =>
    have hanswered : ¬ Unanswered m i := fun h => by
      rw [h d hd] at hfind
      cases hfind
    have hmem : h ∈ Machine.withRuntimeMembers.hooks := List.mem_of_find?_eq_some hfind
    obtain ⟨member, rfl⟩ := hook_of_mem hmem
    have haction : member.hook.action = .runtime member := by cases member <;> rfl
    dsimp only
    unfold Site.askHook
    rw [haction]
    dsimp only
    split
    · exact agree_pure hs ⟨fun _ hv => (by cases hv), fun _ => rfl⟩
    · rename_i hbody
      refine Agree.tryCatch ((agree_answerFor hs hthis harguments fun hraise => hprepares ?_).bind
        fun y a _ hy ha => agree_pure hy ⟨fun v hv => ?_, fun h => absurd h hanswered⟩)
      · subst hraise
        exact ⟨d, hd, Option.not_isSome_iff_eq_none.mp hbody, hfind⟩
      · obtain rfl := Option.some.inj hv
        cases a with
        | none => trivial
        | some v => exact ha v rfl

/-- One call. What is asked of the calls that it makes is asked only where it makes them. Only a call that
is answered returns without an instruction. -/
theorem agree_invokeWith (hs : U.inv s) {i : MethodId}
    (hwithin : s.depth < maxDepth →
      ∀ u, U.le s u → U.inv u → U.Within { u with depth := u.depth + 1 } call call')
    (hprepares : IsRaiser m i → s.depth < maxDepth → U.Prepares s call call')
    (hthis : ∀ v, this = some v → (U.scope s).Value v)
    (harguments : ∀ v ∈ arguments, (U.scope s).Value v) :
    U.Agree s (fun u v => (U.scope u).Value v ∧ (Unanswered m i → s.executed < u.executed))
      (Action.invokeWith m call i this arguments) (Action.invokeWith m call' i this arguments) := by
  unfold Action.invokeWith
  cases hd : m.method? i with
  | none => exact agree_throw hs rfl rfl
  | some d =>
    -- noted on the trace, asked of the hooks, and then the body, each in a later state
    refine (agree_get hs).bind fun u x _ _ hx => ?_
    obtain ⟨rfl, rfl⟩ := hx
    dsimp only
    split
    · exact agree_fault hs rfl rfl
    · rename_i hdepth
      have hlt := Nat.lt_of_not_le hdepth
      refine (agree_know hs hd).bind fun s₁ _ hle₁ hs₁ _ => ?_
      refine (agree_record hs₁ (e := .called _) trivial).bind fun s₂ _ hle₂ hs₂ _ => ?_
      have hle := U.trans hle₁ hle₂
      have hthis₂ : ∀ v, this = some v → (U.scope s₂).Value v :=
        fun v hv => (U.grow hle).value (hthis v hv)
      refine (agree_answer hs₂ hd (fun hraiser => (hprepares hraiser hlt).later hle) hthis₂
        (values_later hle harguments)).bind fun s₃ x hle₃ hs₃ hx => ?_
      split
      · rename_i v
        exact agree_pure hs₃ ⟨hx.1 v rfl, fun h => absurd (hx.2 h) (Option.some_ne_none v)⟩
      · have hfar := U.trans hle hle₃
        exact (agree_runBody hs₃ hd (fun u hu => hwithin hlt u (U.trans hfar hu))
          (fun v hv => (U.grow hle₃).value (hthis₂ v hv)) (values_later hfar harguments)).mono
          fun _ _ _ _ hv => ⟨hv.1, fun _ => Nat.lt_of_le_of_lt (U.executed hfar) hv.2⟩

/-- However deep calls may be nested, they agree with themselves. -/
theorem calls_invokeAt (bound : Nat) (s : Machine) :
    U.Calls s (Action.invokeAt m bound) (Action.invokeAt m bound) := by
  induction bound generalizing s with
  | zero => exact fun t i this arguments _ ht _ _ => agree_fault ht rfl rfl
  | succ bound ih =>
    exact fun t i this arguments _ ht hthis harguments =>
      (agree_invokeWith ht (fun _ u _ _ => (ih _).within) (fun _ _ => (ih _).prepares) hthis
        harguments).mono fun _ _ _ _ hv => hv.1

theorem calls_invoke (s : Machine) : U.Calls s (Action.invoke m) (Action.invoke m) :=
  fun t _ _ _ _ ht hthis harguments =>
    (calls_invokeAt (Action.nesting t) t (U.refl t) ht hthis harguments).of_later (U.refl t)
      (Action.invoke_run ..) (Action.invoke_run ..)

end Upkeep

end SetterLoom
