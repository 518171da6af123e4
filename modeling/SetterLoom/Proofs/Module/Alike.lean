import SetterLoom.Machine.Run

/-!
# Modules that differ in bodies only

Weaving replaces bodies of methods and marks methods, and leaves everything else of a module alone. What
code finds in a module by reference or by name, and by which name a call is known, is then the same as
before.

* `Alike.methodInLine?`, `Alike.fieldInLine?`: what types have and inherit.
* `Alike.callName`: the name by which hooks know a method.
-/

namespace SetterLoom
set_option autoImplicit false

/-- The signature of a method: what calls of it depend on besides what its body does. -/
def Method.signature (d : Method) : Method :=
  { d with body := d.body.map fun _ => {}, attributes := [] }

namespace Module

/-- Modules that differ at most in bodies and attributes of methods. -/
structure Alike (m m' : Module) : Prop where
  types : m'.types = m.types
  registry : m'.registry = m.registry
  signatures : ∀ i, (m'.method? i).map Method.signature = (m.method? i).map Method.signature

namespace Alike

variable {m m' : Module} {d d' : Method}

theorem refl (m : Module) : m.Alike m := ⟨rfl, rfl, fun _ => rfl⟩

theorem method? (h : m.Alike m') {i : MethodId} (hd : m.method? i = some d) :
    ∃ d', m'.method? i = some d' ∧ d'.signature = d.signature := by
  have hi := h.signatures i
  rw [hd, Option.map_some] at hi
  exact Option.map_eq_some_iff.mp hi

theorem type? (h : m.Alike m') (t : TypeId) : m'.type? t = m.type? t :=
  Module.type?_of_types h.types t

theorem line (h : m.Alike m') (t : TypeId) : m'.line t = m.line t := by
  -- by induction on how far the walk may go, for every type it starts at
  have hbound : ∀ bound t, m'.lineUpTo bound t = m.lineUpTo bound t := by
    intro bound
    induction bound with
    | zero => exact fun _ => rfl
    | succ bound ih =>
      intro t
      have hrest : m'.lineUpTo bound = m.lineUpTo bound := funext ih
      rw [lineUpTo, lineUpTo, h.type? t, hrest]
  unfold Module.line
  rw [h.types, hbound]

theorem any (h : m.Alike m') (i : MethodId) {q : Method → Bool}
    (hq : ∀ d, q d = q d.signature) : (m'.method? i).any q = (m.method? i).any q := by
  have hi := h.signatures i
  cases hd : m.method? i with
  | none =>
    rw [hd, Option.map_none] at hi
    rw [Option.map_eq_none_iff.mp hi]
  | some d =>
    obtain ⟨d', hd', hsignature⟩ := h.method? hd
    rw [hd', Option.any_some, Option.any_some, hq d, hq d', hsignature]

theorem methodNamed? (h : m.Alike m') (t : TypeDef) (name : String) :
    m'.methodNamed? t name = m.methodNamed? t name := by
  unfold Module.methodNamed?
  congr 1
  funext i
  exact h.any i fun _ => rfl

theorem methodInLine? (h : m.Alike m') (t : TypeId) (name : String) :
    m'.methodInLine? t name = m.methodInLine? t name := by
  unfold Module.methodInLine?
  rw [h.line]
  congr 1
  funext e
  exact h.methodNamed? e.2 name

theorem fieldInLine? (h : m.Alike m') (t : TypeId) (name : String) :
    m'.fieldInLine? t name = m.fieldInLine? t name := by
  unfold Module.fieldInLine?
  rw [h.line]

theorem isDelegate (h : m.Alike m') (t : TypeId) : m'.isDelegate t = m.isDelegate t := by
  unfold Module.isDelegate
  rw [h.line]

theorem require (h : m.Alike m') (name : String) : m'.require name = m.require name := by
  unfold Module.require Module.find?
  rw [h.registry]

theorem defaultOf (h : m.Alike m') (t : TypeId) : m'.defaultOf t = m.defaultOf t := by
  unfold Module.defaultOf
  rw [h.type?]

/-! ## Methods of one signature -/

section Signature

variable (hd : d'.signature = d.signature)
include hd

theorem token_eq : d'.token = d.token :=
  show d'.signature.token = d.signature.token by rw [hd]

theorem name_eq : d'.name = d.name :=
  show d'.signature.name = d.signature.name by rw [hd]

theorem params_eq : d'.params = d.params :=
  show d'.signature.params = d.signature.params by rw [hd]

theorem returns_eq : d'.returns = d.returns :=
  show d'.signature.returns = d.signature.returns by rw [hd]

theorem owner_eq : d'.owner = d.owner :=
  show d'.signature.owner = d.signature.owner by rw [hd]

theorem isSome_body_eq : d'.body.isSome = d.body.isSome := by
  have h : d'.signature.body.isSome = d.signature.body.isSome := by rw [hd]
  simpa [Method.signature] using h

theorem isStatic_eq : d'.isStatic = d.isStatic :=
  show d'.signature.isStatic = d.signature.isStatic by rw [hd]

end Signature

theorem declarer? (h : m.Alike m') (hd : d'.signature = d.signature) :
    m'.declarer? d' = m.declarer? d := by
  unfold Module.declarer?
  rw [owner_eq hd]
  congr 1
  funext t
  exact h.type? t

theorem methodName (h : m.Alike m') (hd : d'.signature = d.signature) :
    m'.methodName d' = m.methodName d := by
  unfold Module.methodName
  rw [h.declarer? hd, name_eq hd]

theorem callName (h : m.Alike m') (hd : d'.signature = d.signature) :
    (⟨m', d'⟩ : Site).callName = (⟨m, d⟩ : Site).callName := by
  unfold Site.callName
  simp only [h.declarer? hd, name_eq hd]

end Alike

theorem alike_setBody {m : Module} {i : MethodId} {d : Method} (hd : m.method? i = some d)
    (hbody : d.body.isSome = true) (result : Body) (serial : Nat) :
    m.Alike { m.setBody i (some result) with serial } := by
  refine ⟨rfl, rfl, fun j => ?_⟩
  show ((m.setBody i (some result)).method? j).map Method.signature = _
  rw [setBody, method?_updateMethod]
  split
  · rename_i heq
    subst heq
    obtain ⟨body, hsome⟩ := Option.isSome_iff_exists.mp hbody
    rw [hd, Option.map_some, Option.map_some, Option.map_some]
    unfold Method.signature
    rw [hsome]
    rfl
  · rfl

end Module

end SetterLoom
