import SetterLoom.Machine.State
import SetterLoom.Module.Declare
import SetterLoom.Report.Metadata

/-!
# Reports of values and objects

Values show what they are by the name of their only part; the null reference is reported as nothing. An
object shows the fields that something was stored into, in token order.
-/

namespace SetterLoom
set_option autoImplicit false

/-- A value. -/
def Value.report : Value → Report
  | .void => .record [("void", true)]
  | .int n => .record [("i32", n)]
  | .null => .nothing
  | .ref r => .record [("ref", r)]
  | .struct t => .record [("struct", t)]
  | .address r f => .record [("addr", r), ("field", f)]
  | .function m => .record [("fn", m)]

/-- A value with what can be asked of it. -/
def Value.fullReport (v : Value) : Report :=
  .record [("value", v.report), ("display", v.text), ("type_name", v.kind), ("truth", v.truth),
    ("null", v.isNull), ("i32", .ofOption (fun n => n) v.int?), ("ref", .ofOption (fun r => r) v.ref?)]

/-- An object of the heap: its kind in words, and what it holds. -/
def HeapObject.report (o : HeapObject) : Report :=
  .record (("kind", .text o.kind) :: match o with
    | .string s => [("string", .text s)]
    | .object t fields =>
      [("type", .text t.text), ("fields", .each (fun f => .list [f.1, f.2.report]) fields.toList)]
    | .boxed t v => [("type", .text t.text), ("value", v.report)]
    | .delegate t list =>
      let invocation (i : Invocation) : Report :=
        .record [("target", .ofOption (fun r => r) i.target), ("method", i.method)]
      [("type", .text t.text), ("invocations", .each invocation list)])

/-- An event of the trace. -/
def TraceEvent.report : TraceEvent → Report
  | .called m => .record [("called", m)]
  | .notified sender p before after =>
    .record [("notified", p), ("sender", sender), ("before", .ofOption Value.report before),
      ("after", .ofOption Value.report after),
      ("values", .each .truth [before.isSome, after.isSome])]
  | .subscribed source listener =>
    .record [("subscribed", source), ("listener", .ofOption (fun r => r) listener)]
  | .unsubscribed source listener =>
    .record [("unsubscribed", source), ("listener", .ofOption (fun r => r) listener)]

/-- A hook. -/
def Hook.report (h : Hook) : Report :=
  .record [("name", h.name), ("priority", h.priority), ("debug", h.listing)]

namespace Machine

/-- The trace. -/
def traceReport (s : Machine) : Report := .each TraceEvent.report s.trace.toList

/-- How far the machine has come, with the trace. -/
def progress (s : Machine) : List (String × Report) :=
  [("executed", s.executed), ("objects", s.heap.size), ("trace", s.traceReport)]

end Machine

/-- A type with all its members. -/
def Module.typeReport (m : Module) (d : TypeDef) : Report :=
  .record
    [("token", d.token), ("fullname", d.fullName), ("display", d.fullName),
     ("namespace", d.space), ("name", d.name), ("flavor", d.flavor.name),
     ("external", d.external), ("value_type", d.isValue), ("default", d.default.report),
     ("base", .ofOption m.typeNameReport d.base),
     ("interfaces", .each m.typeNameReport d.interfaces), ("attributes", .texts d.attributes),
     ("fields", .each m.fieldReport d.fields),
     ("methods", .each m.methodReport (d.methods.filterMap m.method?)),
     ("properties", .each m.propertyReport d.properties),
     ("events", .each m.eventReport d.events)]

end SetterLoom
