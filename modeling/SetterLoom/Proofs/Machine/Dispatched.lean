import SetterLoom.Proofs.Machine.Answered

/-!
# Virtual calls

A virtual call of a method is meant to run the most derived override of it in the type of the receiver. What
the machine does is to take the first method of that name along the line of the type, and to take the method
itself if that one has another number of parameters or no receiver. The two agree where names are not
overloaded and nothing is hidden; how they differ otherwise is said here.

* `Module.called`: the method that is meant.
* `Module.dispatched`: the method that the machine takes.
* `Module.dispatched_eq_called_iff`: when they are the same.
* `Site.callvirt_goes_to`: a virtual call, on any object.
* `Site.callvirt_misses_override`: an override behind an overload, and a method that is hidden.
-/

namespace SetterLoom
set_option autoImplicit false

namespace Method

/-- The method can be called on an object with as many arguments as the other one. -/
def Fits (c d : Method) : Prop := c.params.length = d.params.length ∧ c.isStatic = false

instance (c d : Method) : Decidable (c.Fits d) := by
  unfold Fits
  infer_instance

end Method

namespace Module

variable {m : Module} {t u : TypeId} {e : TypeDef} {i j k : MethodId} {c d : Method}

/-- The method has the name of the other one. -/
def isNamesake (m : Module) (d : Method) (j : MethodId) : Bool := (m.method? j).any (·.name == d.name)

/-- The method is virtual and has the name and shape of the other one. -/
def isOverride (m : Module) (d : Method) (j : MethodId) : Bool :=
  (m.method? j).any fun c => c.name == d.name && decide (c.Fits d) && c.isVirtual

/-- The first virtual method with the name and shape of the given one, in the nearest type of the line that
has one. If the given one is virtual itself, the search ends with its declaring type at the latest. -/
def override? (m : Module) (t : TypeId) (d : Method) : Option MethodId :=
  (m.line t).findSome? fun e => e.2.methods.find? (m.isOverride d)

/-- The method that is meant by a virtual call of a method on an object of the type. -/
def called (m : Module) (t : TypeId) (i : MethodId) (d : Method) : MethodId :=
  if d.isVirtual then (m.override? t d).getD i else i

/-- The method that the machine takes for a virtual call of a method on an object of the type. -/
def dispatched (m : Module) (t : TypeId) (i : MethodId) (d : Method) : MethodId :=
  ((m.methodInLine? t d.name).filter fun j =>
    (m.method? j).any fun c => c.params.length == d.params.length && !c.isStatic).getD i

/-- The methods of a type and of its base types, nearest first. -/
def methodsInLine (m : Module) (t : TypeId) : List MethodId := (m.line t).flatMap (·.2.methods)

/-! ## Both are searches in one list -/

theorem methodInLine?_eq_find? (m : Module) (t : TypeId) (d : Method) :
    m.methodInLine? t d.name = (m.methodsInLine t).find? (m.isNamesake d) :=
  List.find?_flatMap.symm

theorem override?_eq_find? (m : Module) (t : TypeId) (d : Method) :
    m.override? t d = (m.methodsInLine t).find? (m.isOverride d) :=
  List.find?_flatMap.symm

theorem mem_methodsInLine (he : (u, e) ∈ m.line t) (hi : i ∈ e.methods) : i ∈ m.methodsInLine t :=
  List.mem_flatMap.mpr ⟨(u, e), he, hi⟩

theorem isNamesake_iff : m.isNamesake d j = true ↔ ∃ c, m.method? j = some c ∧ c.name = d.name := by
  cases hj : m.method? j <;> simp [isNamesake, hj]

theorem isOverride_iff :
    m.isOverride d j = true
      ↔ ∃ c, m.method? j = some c ∧ c.name = d.name ∧ c.Fits d ∧ c.isVirtual = true := by
  cases hj : m.method? j <;> simp [isOverride, hj, and_assoc]

theorem isNamesake_of_isOverride (h : m.isOverride d j = true) : m.isNamesake d j = true := by
  obtain ⟨c, hc, hname, -⟩ := isOverride_iff.mp h
  exact isNamesake_iff.mpr ⟨c, hc, hname⟩

theorem find?_of_find? {α : Type} {p q : α → Bool} {l : List α} {x : α}
    (himp : ∀ y, q y = true → p y = true) (hx : l.find? p = some x) (hq : q x = true) :
    l.find? q = some x := by
  obtain ⟨-, front, back, rfl, hfront⟩ := List.find?_eq_some_iff_append.mp hx
  refine List.find?_eq_some_iff_append.mpr ⟨hq, front, back, rfl, fun y hy => ?_⟩
  have hp := hfront y hy
  cases hqy : q y with
  | false => rfl
  | true => simp [himp y hqy] at hp

theorem exists_first (hd : m.method? i = some d) (hi : i ∈ m.methodsInLine t) :
    ∃ first c, m.methodInLine? t d.name = some first ∧ m.method? first = some c ∧ c.name = d.name := by
  rw [methodInLine?_eq_find?]
  cases hfirst : (m.methodsInLine t).find? (m.isNamesake d) with
  | none => exact absurd (isNamesake_iff.mpr ⟨d, hd, rfl⟩) (List.find?_eq_none.mp hfirst i hi)
  | some first =>
    obtain ⟨c, hc, hname⟩ := isNamesake_iff.mp (List.find?_some hfirst)
    exact ⟨first, c, rfl, hc, hname⟩

/-- A virtual method on the line is overridden, if only by itself. -/
theorem exists_override (hd : m.method? i = some d) (hinstance : d.isStatic = false)
    (hvirtual : d.isVirtual = true) (hi : i ∈ m.methodsInLine t) :
    ∃ j, m.override? t d = some j ∧ m.isOverride d j = true := by
  rw [override?_eq_find?]
  cases hfound : (m.methodsInLine t).find? (m.isOverride d) with
  | none =>
    exact absurd (isOverride_iff.mpr ⟨d, hd, rfl, ⟨rfl, hinstance⟩, hvirtual⟩)
      (List.find?_eq_none.mp hfound i hi)
  | some j => exact ⟨j, rfl, List.find?_some hfound⟩

/-! ## What the machine takes -/

variable {first : MethodId}

theorem dispatched_eq (hfirst : m.methodInLine? t d.name = some first) (hc : m.method? first = some c) :
    m.dispatched t i d = if c.Fits d then first else i := by
  unfold dispatched
  rw [hfirst, Option.filter_some, hc, Option.any_some]
  by_cases hfits : c.Fits d
  · rw [if_pos hfits, if_pos (by simpa [Method.Fits] using hfits)]
    rfl
  · rw [if_neg hfits, if_neg (by simpa [Method.Fits] using hfits)]
    rfl

/-- The first namesake is the most derived override, if it is one at all. -/
theorem override?_eq_first (hfirst : m.methodInLine? t d.name = some first)
    (hoverride : m.isOverride d first = true) : m.override? t d = some first := by
  rw [methodInLine?_eq_find?] at hfirst
  rw [override?_eq_find?]
  exact find?_of_find? (fun _ => isNamesake_of_isOverride) hfirst hoverride

/-- Where the first namesake fits, the machine takes what is meant exactly if that one is virtual too, or,
for a method that is not virtual, if it is the method itself. Where it does not fit, nothing may override the
method. -/
theorem dispatched_eq_called_iff (hd : m.method? i = some d) (hinstance : d.isStatic = false)
    (hi : i ∈ m.methodsInLine t) (hfirst : m.methodInLine? t d.name = some first)
    (hc : m.method? first = some c) (hname : c.name = d.name) :
    m.dispatched t i d = m.called t i d
      ↔ if c.Fits d then (if d.isVirtual then c.isVirtual = true else first = i)
        else d.isVirtual = true → m.override? t d = some i := by
  rw [dispatched_eq hfirst hc, called]
  by_cases hvirtual : d.isVirtual = true
  · obtain ⟨j, hj, hoverride⟩ := exists_override hd hinstance hvirtual hi
    rw [if_pos hvirtual, hj, Option.getD_some]
    by_cases hfits : c.Fits d
    · rw [if_pos hfits, if_pos hfits, if_pos hvirtual]
      constructor
      · rintro rfl
        obtain ⟨c', hc', -, -, hc'virtual⟩ := isOverride_iff.mp hoverride
        obtain rfl := Option.some.inj (hc.symm.trans hc')
        exact hc'virtual
      · intro hcvirtual
        have hsame := override?_eq_first hfirst (isOverride_iff.mpr ⟨c, hc, hname, hfits, hcvirtual⟩)
        exact Option.some.inj (hsame.symm.trans hj)
    · rw [if_neg hfits, if_neg hfits]
      exact ⟨fun h _ => congrArg some h.symm, fun h => (Option.some.inj (h hvirtual)).symm⟩
  · rw [if_neg hvirtual, if_neg hvirtual]
    by_cases hfits : c.Fits d
    · rw [if_pos hfits, if_pos hfits]
    · rw [if_neg hfits, if_neg hfits]
      exact ⟨fun _ h => absurd h hvirtual, fun _ => rfl⟩

/-- Nothing in front of a method goes by its name but virtual methods of its shape, if it is virtual
itself. -/
theorem dispatched_eq_called {front back : List MethodId} (hd : m.method? i = some d)
    (hinstance : d.isStatic = false) (hline : m.methodsInLine t = front ++ i :: back)
    (hfront : ∀ j ∈ front, m.isNamesake d j = true → m.isOverride d j = true ∧ d.isVirtual = true) :
    m.dispatched t i d = m.called t i d := by
  have hi : i ∈ m.methodsInLine t := by simp [hline]
  have hself : m.isNamesake d i = true := isNamesake_iff.mpr ⟨d, hd, rfl⟩
  obtain ⟨first, c, hfirst, hc, hname⟩ := exists_first hd hi
  rw [dispatched_eq_called_iff hd hinstance hi hfirst hc hname]
  have hfound := hfirst
  rw [methodInLine?_eq_find?, hline, List.find?_append] at hfound
  cases hnear : front.find? (m.isNamesake d) with
  | some j =>
    rw [hnear, Option.some_or] at hfound
    obtain rfl := Option.some.inj hfound
    obtain ⟨hoverride, hvirtual⟩ := hfront j (List.mem_of_find?_eq_some hnear) (List.find?_some hnear)
    obtain ⟨c', hc', -, hfits, hcvirtual⟩ := isOverride_iff.mp hoverride
    obtain rfl := Option.some.inj (hc.symm.trans hc')
    rw [if_pos hfits, if_pos hvirtual]
    exact hcvirtual
  | none =>
    rw [hnear, Option.none_or, List.find?_cons, hself] at hfound
    obtain rfl := Option.some.inj hfound
    obtain rfl := Option.some.inj (hd.symm.trans hc)
    have hfits : d.Fits d := ⟨rfl, hinstance⟩
    rw [if_pos hfits]
    split
    · assumption
    · rfl

end Module

/-! ## The call -/

theorem Action.dispatch_eq {m : Module} {r : HeapRef} {o : HeapObject} {t : TypeId} {s : Machine}
    (hr : s.heap.get? r = some o) (ht : o.type?.bind m.registry.get? = some t) (i : MethodId) (d : Method) :
    (dispatch m r i d).run.run s = (.ok (m.dispatched t i d), s) := by
  unfold dispatch
  rw [bind_run, runtimeType_run hr, ht]
  rfl

namespace Site

variable {c : Site} {call : Call} {i : MethodId} {d : Method} {r : HeapRef} {o : HeapObject}
  {t u : TypeId} {e : TypeDef} {f g : Frame} {arguments : List Value} {s : Machine}

/-- An object is called through the method that the machine takes, unless it is a delegate that is called as
one. -/
theorem callOnObject_run (hr : s.heap.get? r = some o) (ht : o.type?.bind c.module.registry.get? = some t)
    (hplain : d.name = Surface.invoke → o.isDelegate = false) (arguments : List Value) :
    (c.callOnObject call i d r arguments).run.run s
      = (call (c.module.dispatched t i d) (some (.ref r)) arguments).run.run s := by
  have hmember : (d.name == Surface.invoke && o.isDelegate) = false := by
    cases hname : d.name == Surface.invoke with
    | false => rfl
    | true => exact hplain (beq_iff_eq.mp hname)
  unfold callOnObject
  rw [Action.bind_run, heap_get_run hr]
  simp only [hmember, Bool.false_eq_true, if_false]
  rw [Action.bind_run, Action.dispatch_eq hr ht]

/-- **Virtual calls.** A virtual call of an instance method on an object, whose type is the declaring type
of the method or derives from it, runs one method and pushes its result. That is the first method of the name
in the nearest type that has any, if it fits, and else the method itself. It is the method that is meant
exactly if one of these holds: the method is virtual and so is that first one, which fits; the method is not
virtual, and the first one is the method itself or does not fit; the first one does not fit, and nothing
overrides the method. So it is where every method of the name in front of the called one overrides it. -/
theorem callvirt_goes_to (call : Call) (types : List TypeId) (hd : c.module.method? i = some d)
    (hinstance : d.isStatic = false) (hr : s.heap.get? r = some o)
    (ht : o.type?.bind c.module.registry.get? = some t)
    (hplain : d.name = Surface.invoke → o.isDelegate = false)
    (hu : (u, e) ∈ c.module.line t) (hi : i ∈ e.methods)
    (hcount : arguments.length = d.params.length)
    (hf : f = { g.push (.ref r) with stack := arguments.reverse ++ (g.push (.ref r)).stack }) :
    ∃ k first named, c.module.methodInLine? t d.name = some first ∧ c.module.method? first = some named
      ∧ k = (if named.Fits d then first else i)
      ∧ (c.step call ⟨.callvirt, .method ⟨i, types⟩⟩ f).run.run s
        = (do
            let v ← call k (some (.ref r)) arguments
            return Step.next (if d.returns.isSome then g.push v else g) : Action Step).run.run s
      ∧ (k = c.module.called t i d
        ↔ if named.Fits d then (if d.isVirtual then named.isVirtual = true else first = i)
          else d.isVirtual = true → c.module.override? t d = some i)
      ∧ ∀ front back, c.module.methodsInLine t = front ++ i :: back →
        (∀ j ∈ front, c.module.isNamesake d j = true →
          c.module.isOverride d j = true ∧ d.isVirtual = true) →
        k = c.module.called t i d := by
  have hmem : i ∈ c.module.methodsInLine t := Module.mem_methodsInLine hu hi
  obtain ⟨first, named, hfirst, hnamed, hname⟩ := Module.exists_first hd hmem
  refine ⟨c.module.dispatched t i d, first, named, hfirst, hnamed, Module.dispatched_eq hfirst hnamed, ?_,
    Module.dispatched_eq_called_iff hd hinstance hmem hfirst hnamed hname,
    fun front back => Module.dispatched_eq_called hd hinstance⟩
  have hpop : c.popMany f d.params.length = pure (arguments, g.push (.ref r)) := by
    unfold popMany
    rw [hf, ← hcount, Frame.popMany?_eq_some (g.push (.ref r)) arguments]
  show (c.callMethod call f .callvirt i).run.run s = _
  unfold callMethod
  simp only [hd, hpop, hinstance, Bool.false_eq_true, if_false, pure_bind]
  show (c.callOnObject call i d r arguments >>= fun v =>
    pure (Step.next (if d.returns.isSome then g.push v else g))).run.run s = _
  rw [Action.bind_run, callOnObject_run hr ht hplain, Action.bind_run]

end Site

/-! ## Overloads and hidden methods -/

namespace Speakers

def method (token : UInt32) (name : String) (modifiers : Modifiers) (params : Nat) (owner : TypeId)
    (ops : List Op) : Method where
  token := ⟨token⟩
  name
  access := .publicAccess
  modifiers
  params := List.replicate params ⟨"value", ⟨0⟩⟩
  returns := none
  owner := some owner
  body := some (.ofCode (ops.mapIdx fun k op => ⟨.written (.ofNat k), op⟩))

def speak (token : UInt32) (params : Nat) (owner : TypeId) : Method :=
  method token "Speak" .virtualBit params owner [.ret]

def tell (token : UInt32) (owner : TypeId) : Method := method token "Tell" .hideBySig 0 owner [.ret]

/-- Speakers have a virtual method and another one, and call them on themselves. A loud speaker overrides
the first. An odd one has an overload in front of its override, and hides the second. -/
def module : Module where
  name := "Speakers"
  types := #[some ⟨⟨10⟩, "System", "Object", .object, true, none, [], [], [], [], [], []⟩,
    some ⟨⟨11⟩, "", "Speaker", .classType, false, some ⟨0⟩, [], [], [⟨0⟩, ⟨1⟩, ⟨2⟩, ⟨3⟩], [], [], []⟩,
    some ⟨⟨12⟩, "", "Loud", .classType, false, some ⟨1⟩, [], [], [⟨4⟩], [], [], []⟩,
    some ⟨⟨13⟩, "", "Odd", .classType, false, some ⟨1⟩, [], [], [⟨5⟩, ⟨6⟩, ⟨7⟩], [], [], []⟩]
  methods := #[some (speak 30 0 ⟨1⟩), some (tell 31 ⟨1⟩),
    some (method 32 "CallSpeak" .hideBySig 0 ⟨1⟩ [.ldarg 0, .callvirt ⟨0⟩, .ret]),
    some (method 33 "CallTell" .hideBySig 0 ⟨1⟩ [.ldarg 0, .callvirt ⟨1⟩, .ret]),
    some (speak 34 0 ⟨2⟩), some (speak 35 1 ⟨3⟩), some (speak 36 0 ⟨3⟩), some (tell 37 ⟨3⟩)]
  registry := (Registry.insert {} ⟨12⟩ "Loud" ⟨2⟩).insert ⟨13⟩ "Odd" ⟨3⟩

/-- A machine with one object. -/
def machine (type : Token) : Machine := { heap := Heap.push {} (.object type .empty) }

/-- What happens when a method is called on the object. -/
def traceOf (type : Token) (i : MethodId) : List TraceEvent :=
  ((Action.invoke module i (some (.ref ⟨1⟩)) []).run.run (machine type)).2.trace.toList

end Speakers

open Speakers in
/-- On a loud speaker the override is called. -/
theorem Site.callvirt_goes_to_loud :
    let call := Action.invokeAt Speakers.module maxDepth
    Speakers.module.called ⟨2⟩ ⟨0⟩ (speak 30 0 ⟨1⟩) = ⟨4⟩
      ∧ ((⟨Speakers.module, tell 31 ⟨1⟩⟩ : Site).step call ⟨.callvirt, .method ⟨⟨0⟩, []⟩⟩
          ⟨[], [], [.ref ⟨1⟩]⟩).run.run (machine ⟨12⟩)
        = (do
            let _ ← call ⟨4⟩ (some (.ref ⟨1⟩)) []
            return Step.next ⟨[], [], []⟩ : Action Step).run.run (machine ⟨12⟩) := by
  intro call
  have hcalled : Speakers.module.called ⟨2⟩ ⟨0⟩ (speak 30 0 ⟨1⟩) = ⟨4⟩ := by decide +kernel
  obtain ⟨k, first, named, -, -, -, hrun, -, hcalls⟩ := Site.callvirt_goes_to call []
    (c := ⟨Speakers.module, tell 31 ⟨1⟩⟩) (i := ⟨0⟩) (d := speak 30 0 ⟨1⟩) (r := ⟨1⟩) (t := ⟨2⟩) (u := ⟨1⟩)
    (f := ⟨[], [], [.ref ⟨1⟩]⟩) (g := ⟨[], [], []⟩) (s := machine ⟨12⟩)
    rfl (by decide +kernel) rfl (by decide +kernel) (fun _ => rfl)
    (List.mem_of_getElem? (show (Speakers.module.line ⟨2⟩)[1]? = some _ from rfl)) (by decide +kernel)
    (show ([] : List Value).length = 0 from rfl) rfl
  have hk : k = ⟨4⟩ := by
    rw [hcalls [⟨4⟩] [⟨1⟩, ⟨2⟩, ⟨3⟩] (by decide +kernel) (by decide +kernel)]
    exact hcalled
  rw [hk] at hrun
  exact ⟨hcalled, hrun⟩

open Speakers in
/-- On an odd speaker the overload in front of the override hides it, and the machine calls the method of the
base type. The other method is hidden there, and the machine calls the one that hides it. -/
theorem Site.callvirt_misses_override :
    Speakers.module.called ⟨3⟩ ⟨0⟩ (speak 30 0 ⟨1⟩) = ⟨6⟩
      ∧ traceOf ⟨13⟩ ⟨2⟩ = [.called "Speaker::CallSpeak", .called "Speaker::Speak"]
      ∧ Speakers.module.called ⟨3⟩ ⟨1⟩ (tell 31 ⟨1⟩) = ⟨1⟩
      ∧ traceOf ⟨13⟩ ⟨3⟩ = [.called "Speaker::CallTell", .called "Odd::Tell"] := by
  decide +kernel

end SetterLoom
