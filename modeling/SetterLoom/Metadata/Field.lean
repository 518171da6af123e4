import SetterLoom.Metadata.Flags
import SetterLoom.Metadata.Id

/-!
# Fields

A field never changes once it is made, so code carries the field itself and not a reference to it.
The type that declares a field is known to the module, not to the field.
-/

namespace SetterLoom
set_option autoImplicit false

/-- A field declaration. -/
structure Field where
  token : Token
  name : String
  flags : FieldFlags
  type : TypeId
  deriving DecidableEq, Repr

namespace Field

/-- The name of the field behind a property whose accessors only load and store. -/
def backingName (property : String) : String := "<" ++ property ++ ">k__BackingField"

end Field

end SetterLoom
