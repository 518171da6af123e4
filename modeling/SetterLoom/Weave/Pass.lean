import SetterLoom.Weave.Setter

/-!
# Weaving a module

A pass weaves the setters of a list of plans. A setter that was woven is marked, and no pass weaves a
marked setter again. The pass ends at the first setter that cannot be woven; what was woven before
stays.
-/

namespace SetterLoom
set_option autoImplicit false

/-- What a pass did. -/
structure WeaveSummary where
  types : Nat := 0
  woven : Nat := 0
  /-- The properties whose setter was woven before. -/
  skipped : Nat := 0
  notifications : Nat := 0
  /-- The handlers that were declared. -/
  handlers : Nat := 0
  deriving DecidableEq, Repr, Inhabited

namespace WeaveSummary

/-- One more type. -/
def countType (s : WeaveSummary) : WeaveSummary := { s with types := s.types + 1 }

/-- One more property that was skipped. -/
def countSkipped (s : WeaveSummary) : WeaveSummary := { s with skipped := s.skipped + 1 }

/-- One more setter that was woven. -/
def countWoven (s : WeaveSummary) (w : WovenSetter) : WeaveSummary :=
  { s with
    woven := s.woven + 1
    notifications := s.notifications + w.notifications
    handlers := s.handlers + w.handler.toList.length }

end WeaveSummary

/-- A pass: how it weaves and what it knows about capabilities. -/
structure Weaver where
  options : Options := {}
  resolver : Resolver := .standard
  capabilities : CapabilityCache := {}

namespace Weaver

/-- The pass in a listing. -/
def listing (w : Weaver) (m : Module) : String :=
  Text.partialRecord "ModuleWeaver"
    [("module", Text.quoted m.name), ("config", w.options.listing)]

end Weaver

namespace Weaving

/-- Every branch of the code goes to a label of the code. -/
def checkBranches (code : Stream) : Except Error Unit :=
  match code.danglingBranch? with
  | some (position, label) => .error (.danglingBranch position label.number)
  | none => .ok ()

/-- Check the code of a setter. -/
def validate (setter : Option MethodId) : Weaving Unit := do
  let m := (← get).module
  match (setter.bind m.method?).bind (·.body) with
  | some body => checkBranches body.code
  | none => pure ()

/-- The setter carries the mark. -/
def isMarked (m : Module) (p : Property) : Bool :=
  (p.setter.bind m.method?).any (·.hasAttribute Surface.woven)

/-- Mark the setter of a property. -/
def mark (p : Property) : Weaving Unit :=
  match p.setter with
  | some i => modify fun w => { w with module := w.module.addAttribute i Surface.woven }
  | none => pure ()

/-- Weave a setter and check the result. -/
def checkedSetter (options : Options) (resolver : Resolver) (type : TypePlan)
    (plan : PropertyPlan) : Weaving WovenSetter := do
  let woven ← setter options resolver type plan
  if options.validation then validate plan.property.setter
  return woven

/-- Weave a property unless it is marked. A failure names the property and its type. -/
def property (options : Options) (resolver : Resolver) (typeName : String) (type : TypePlan)
    (s : WeaveSummary) (plan : PropertyPlan) : Weaving WeaveSummary := do
  if isMarked (← get).module plan.property then return s.countSkipped
  let woven ← tryCatch (checkedSetter options resolver type plan) fun cause =>
    throw (.weave typeName plan.property.name cause)
  mark plan.property
  return s.countWoven woven

/-- Weave the properties of a type. -/
def type (options : Options) (resolver : Resolver) (s : WeaveSummary) (plan : TypePlan) :
    Weaving WeaveSummary := do
  let typeName := ((← get).module.typeName? plan.type).getD ""
  plan.properties.foldlM (property options resolver typeName plan) s.countType

/-- Weave all plans. -/
def all (options : Options) (resolver : Resolver) (plans : List TypePlan) :
    Weaving WeaveSummary :=
  plans.foldlM (type options resolver) {}

end Weaving

namespace Weaver

/-- Run the pass over a module; the answers about capabilities are kept for the next run. -/
def weave (w : Weaver) (plans : List TypePlan) (m : Module) :
    Except Error WeaveSummary × Weaver × Module :=
  let (result, piece) := (Weaving.all w.options w.resolver plans).run.run ⟨m, w.capabilities⟩
  (result, { w with capabilities := piece.capabilities }, piece.module)

end Weaver

end SetterLoom
