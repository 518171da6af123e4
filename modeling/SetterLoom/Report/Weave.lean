import SetterLoom.Report.Metadata
import SetterLoom.Weave.Pass

/-!
# Reports of weaving

What a plan asks for, which options a pass has, and what it did.
-/

namespace SetterLoom
set_option autoImplicit false

/-- The options, and whether they are those of a pass that was given none. -/
def Options.report (o : Options) : Report :=
  .record [("hooks", o.changeHooks), ("is_changed", o.dirtyFlag), ("propagate", o.childChanges),
    ("validate", o.validation), ("is_default", decide (o = {}))]

/-- The plan of a property, with the targets and which of them the setter announces. -/
def PropertyPlan.report (p : PropertyPlan) : Report :=
  let names (ps : List Property) : List String := ps.map (·.name)
  .record
    [("property", p.property.name), ("backing", .optionalText (p.backing.map (·.name))),
     ("dependents", .texts (names p.distinctDependents)), ("targets", .texts (names p.targets)),
     ("already", .each (fun n => p.announces n) (names p.targets))]

/-- The plan of a type. -/
def TypePlan.report (plan : TypePlan) (m : Module) : Report :=
  .record
    [("kind", plan.invoker.kind.name), ("invoker", m.methodNameReport plan.invoker.method),
     ("is_changed", m.methodNameReport plan.dirtySetter),
     ("hooks", .each (fun h => .optionalText ((m.method? h.method).map (·.name))) plan.hooks),
     ("properties", .each PropertyPlan.report plan.properties)]

/-- What a resolver finds in a module, where `failure` shows why a lookup fails. -/
def Resolver.report (r : Resolver) (m : Module) (failure : Error → Report) : Report :=
  let shown {α : Type} (show? : α → Report) : Except Error α → Report
    | .ok a => show? a
    | .error e => failure e
  let method := shown fun i => m.methodNameReport (some i)
  .record
    [("object", shown m.typeNameReport (r.objectType m)), ("equals", method (r.objectEquals m)),
     ("handler", method (r.handlerConstructor m)),
     ("args", shown m.typeNameReport (r.eventArgsType m)),
     ("args_ctor", method (r.eventArgsConstructor m))]

/-- What weaving a setter did. -/
def WovenSetter.report (w : WovenSetter) (m : Module) : Report :=
  .record [("anchors", .numbers w.anchors), ("notifications", w.notifications),
    ("delegate", m.methodNameReport w.handler)]

/-- What a pass did. -/
def WeaveSummary.report (s : WeaveSummary) : List (String × Report) :=
  [("types", s.types), ("woven", s.woven), ("skipped", s.skipped),
   ("notifications", s.notifications), ("delegates", s.handlers)]

/-- How many answers about each capability a pass keeps. -/
def Weaver.cachedReport (w : Weaver) : Report :=
  .numbers ([Capability.observable, .childChanges].map w.capabilities.count)

end SetterLoom
