import SetterLoom.Error
import SetterLoom.Markup.Event
import SetterLoom.Text.Quoted
import SetterLoom.Text.Space

/-!
# Options of a weaving pass

Four switches say what a pass weaves besides the notifications themselves. All of them are on unless
they are turned off. A pass can also take them from a markup text: they are attributes of the first
element of a certain name, and a text without that element leaves all switches as they are.

* `get_set`: setting a switch changes that switch only.
-/

namespace SetterLoom
set_option autoImplicit false

/-- The switches of a pass. -/
inductive Switch where
  /-- Call the method that a type has for changes of a property. -/
  | changeHooks
  /-- Set the dirty flag of an object that changes. -/
  | dirtyFlag
  /-- Announce the changes of a property's value as changes of the property. -/
  | childChanges
  /-- Check the branches of the code that was woven. -/
  | validation
  deriving DecidableEq, Repr

namespace Switch

/-- The attribute that holds a switch. -/
def key : Switch → String
  | .changeHooks => "InjectOnPropertyNameChanged"
  | .dirtyFlag => "EnableIsChanged"
  | .childChanges => "PropagateChildChanges"
  | .validation => "ValidateOutput"

/-- Every switch. -/
def all : List Switch := [.changeHooks, .dirtyFlag, .childChanges, .validation]

/-- The switch that an attribute holds. -/
def ofKey? (key : String) : Option Switch := all.find? (·.key == key)

end Switch

/-- The options of a pass. -/
structure Options where
  changeHooks : Bool := true
  dirtyFlag : Bool := true
  childChanges : Bool := true
  validation : Bool := true
  deriving DecidableEq, Repr, Inhabited

namespace Options

/-- Only notifications are woven, and the result is checked. -/
def notificationsOnly : Options := { changeHooks := false, dirtyFlag := false, childChanges := false }

/-- Whether a switch is on. -/
def get (o : Options) : Switch → Bool
  | .changeHooks => o.changeHooks
  | .dirtyFlag => o.dirtyFlag
  | .childChanges => o.childChanges
  | .validation => o.validation

/-- Turn a switch on or off. -/
def set (o : Options) (switch : Switch) (on : Bool) : Options :=
  match switch with
  | .changeHooks => { o with changeHooks := on }
  | .dirtyFlag => { o with dirtyFlag := on }
  | .childChanges => { o with childChanges := on }
  | .validation => { o with validation := on }

theorem get_set (o : Options) (s t : Switch) (on : Bool) :
    (o.set s on).get t = if t = s then on else o.get t := by
  cases s <;> cases t <;> rfl

/-! ## Reading the options -/

/-- The element that carries the options. -/
def elementName : String := "PropertyChanged"

/-- The value of a switch, in any case and with white space around it. -/
def readValue (key : String) (value : List Char) : Except Error Bool :=
  let value := Text.trimmed value
  if value.map Char.toLower = "true".toList then .ok true
  else if value.map Char.toLower = "false".toList then .ok false
  else .error (.optionValue key (String.ofList value))

/-- Take one attribute into account; an attribute that holds no switch changes nothing. -/
def withAttribute (o : Options) (a : Markup.Attribute) : Except Error Options :=
  match Switch.ofKey? (String.ofList a.key) with
  | none => .ok o
  | some s => (o.set s ·) <$> readValue s.key a.value

/-- Take the attributes of an element into account, as far as they are well-formed. -/
def withAttributes (o : Options) (attributes : Markup.Attributes) : Except Error Options := do
  let o ← attributes.list.foldlM withAttribute o
  if attributes.wellFormed then .ok o else .error .markup

/-- The options held by the first element that carries them. -/
def ofEvents : List Markup.Event → Except Error Options
  | [] => .ok {}
  | .malformed :: _ => .error .markup
  | .aside :: rest => ofEvents rest
  | .element name attributes :: rest =>
    if String.ofList name = elementName then withAttributes {} attributes else ofEvents rest

/-- The options held by a text of which a reader gives the events. -/
def ofText (read : String → List Markup.Event) (text : String) : Except Error Options := ofEvents (read text)

/-- The options held by a markup text. -/
def ofMarkup (text : String) : Except Error Options := ofText Markup.events text

/-! ## Listing -/

/-- The options in a listing. -/
def listing (o : Options) : String :=
  Text.record "WeaverConfig"
    [("inject_on_property_name_changed", toString o.changeHooks),
     ("enable_is_changed", toString o.dirtyFlag),
     ("propagate_child_changes", toString o.childChanges),
     ("validate_output", toString o.validation)]

end Options

end SetterLoom
