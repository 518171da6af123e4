import SetterLoom.Weave.Resolver

/-!
# What is to be woven

A plan for a type says how its instances announce a change, and for each property which other
properties change with it. The announcement is a call of the type's invoker, of which there are five
shapes; a type may also have methods of its own that are to be called on a change, found by their
names.

* `nodup_distinctNames`: no dependent is taken twice.
-/

namespace SetterLoom
set_option autoImplicit false

/-- The shapes of an invoker. -/
inductive InvokerKind where
  /-- It takes the name of the property. -/
  | simple
  /-- It takes the event arguments. -/
  | arguments
  /-- It takes the sender and the event arguments. -/
  | senderAndArguments
  /-- It takes the name, and the values before and after as objects. -/
  | beforeAfter
  /-- It takes the name, and the values before and after in their own type. -/
  | typedBeforeAfter
  deriving DecidableEq, Repr

namespace InvokerKind

/-- Every shape. -/
def all : List InvokerKind :=
  [.simple, .arguments, .senderAndArguments, .beforeAfter, .typedBeforeAfter]

/-- The name of a shape. -/
def name : InvokerKind → String
  | .simple => "Simple"
  | .arguments => "PropertyChangedArg"
  | .senderAndArguments => "SenderPropertyChangedArg"
  | .beforeAfter => "BeforeAfter"
  | .typedBeforeAfter => "BeforeAfterGeneric"

/-- The shape of a name. -/
def ofName? (name : String) : Option InvokerKind := all.find? (·.name == name)

end InvokerKind

/-- The method that announces a change, with the constructor of the arguments it takes. -/
inductive Invoker where
  | simple (method : MethodId)
  | arguments (method argsConstructor : MethodId)
  | senderAndArguments (method argsConstructor : MethodId)
  | beforeAfter (method : MethodId)
  | typedBeforeAfter (method : MethodId)
  deriving DecidableEq, Repr

namespace Invoker

/-- The shape of the invoker. -/
def kind : Invoker → InvokerKind
  | .simple _ => .simple
  | .arguments _ _ => .arguments
  | .senderAndArguments _ _ => .senderAndArguments
  | .beforeAfter _ => .beforeAfter
  | .typedBeforeAfter _ => .typedBeforeAfter

/-- The method that is called. -/
def method : Invoker → MethodId
  | .simple i | .arguments i _ | .senderAndArguments i _ | .beforeAfter i
  | .typedBeforeAfter i => i

/-- The methods that the invoker refers to. -/
def methods : Invoker → List MethodId
  | .arguments i c | .senderAndArguments i c => [i, c]
  | .simple i | .beforeAfter i | .typedBeforeAfter i => [i]

/-- An invoker of the given shape. -/
def resolve (kind : InvokerKind) (method : MethodId) (resolver : Resolver) (m : Module) :
    Except Error Invoker :=
  match kind with
  | .simple => .ok (.simple method)
  | .arguments => (.arguments method ·) <$> resolver.eventArgsConstructor m
  | .senderAndArguments => (.senderAndArguments method ·) <$> resolver.eventArgsConstructor m
  | .beforeAfter => .ok (.beforeAfter method)
  | .typedBeforeAfter => .ok (.typedBeforeAfter method)

end Invoker

/-- A method of the type that is called on a change of one property. -/
inductive ChangeHook where
  | noArguments (method : MethodId)
  /-- It takes the values before and after as objects. -/
  | beforeAfter (method : MethodId)
  deriving DecidableEq, Repr

/-- The method of a hook. -/
def ChangeHook.method : ChangeHook → MethodId
  | .noArguments i | .beforeAfter i => i

/-- A property whose setter is to be woven. `announced` are the names that the setter announces
already. -/
structure PropertyPlan where
  property : Property
  backing : Option Field := none
  dependents : List Property := []
  announced : List String := []
  deriving DecidableEq, Repr

namespace PropertyPlan

/-- The plan of a property with a backing field of the usual name in the type that declares it. -/
def auto (m : Module) (p : Property) : PropertyPlan where
  property := p
  backing := (m.ownerOf? p.token).bind (·.field? (Field.backingName p.name))

/-- The first property of each name that is not yet listed. -/
def distinctFrom (listed : List String) : List Property → List Property
  | [] => []
  | p :: rest =>
    if listed.contains p.name then distinctFrom listed rest
    else p :: distinctFrom (p.name :: listed) rest

/-- The dependents, each name once. -/
def distinctDependents (plan : PropertyPlan) : List Property := distinctFrom [] plan.dependents

/-- The properties to announce: the dependents, and last the property itself. -/
def targets (plan : PropertyPlan) : List Property := plan.distinctDependents ++ [plan.property]

/-- The setter announces the name already. -/
def announces (plan : PropertyPlan) (name : String) : Bool := plan.announced.contains name

theorem name_mem_distinctFrom {listed : List String} {p : Property} {ps : List Property}
    (h : p ∈ distinctFrom listed ps) : p.name ∉ listed := by
  induction ps generalizing listed with
  | nil => exact absurd h List.not_mem_nil
  | cons q rest ih =>
    rw [distinctFrom] at h
    split at h
    · exact ih h
    · rename_i hq
      rcases List.mem_cons.mp h with rfl | hr
      · simpa using hq
      · exact fun hin => ih hr (List.mem_cons_of_mem _ hin)

theorem nodup_distinctFrom (listed : List String) (ps : List Property) :
    ((distinctFrom listed ps).map (·.name)).Nodup := by
  induction ps generalizing listed with
  | nil => exact List.nodup_nil
  | cons p rest ih =>
    rw [distinctFrom]
    split
    · exact ih listed
    · rw [List.map_cons, List.nodup_cons]
      refine ⟨?_, ih _⟩
      intro hin
      obtain ⟨q, hq, hname⟩ := List.mem_map.mp hin
      exact name_mem_distinctFrom hq (hname ▸ List.mem_cons_self)

/-- No dependent is taken twice. -/
theorem nodup_distinctNames (plan : PropertyPlan) :
    (plan.distinctDependents.map (·.name)).Nodup :=
  nodup_distinctFrom [] plan.dependents

end PropertyPlan

/-- A type whose setters are to be woven. -/
structure TypePlan where
  type : TypeId
  invoker : Invoker
  /-- The method that sets the dirty flag. -/
  dirtySetter : Option MethodId := none
  hooks : List ChangeHook := []
  properties : List PropertyPlan := []
  deriving DecidableEq, Repr

namespace TypePlan

/-- The first hook whose method has the name. -/
def hook? (plan : TypePlan) (m : Module) (name : String) : Option ChangeHook :=
  plan.hooks.find? fun h => (m.method? h.method).any (·.name == name)

/-- The methods that the plan refers to. -/
def methods (plan : TypePlan) : List MethodId :=
  plan.invoker.methods ++ plan.dirtySetter.toList ++ plan.hooks.map (·.method)
    ++ plan.properties.flatMap fun p => p.property.methods ++ p.dependents.flatMap (·.methods)

end TypePlan

end SetterLoom
