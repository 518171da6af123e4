import SetterLoom.TokenMap
import SetterLoom.Metadata.Id

/-!
# The registry of types

The registry keeps the types of a module by token and finds them by full name. A full name is
recorded when a type is registered and never forgotten, and among the recorded tokens of a name the
first that still has a type wins, whatever type that is by then.

* `get?_insert`: a token stands for the type registered last under it.
-/

namespace SetterLoom
set_option autoImplicit false

/-- Types by token, and the tokens recorded under each full name in order of registration. -/
structure Registry where
  types : TokenMap TypeId := .empty
  names : List (String × Token) := []
  deriving Repr

namespace Registry

/-- Register a type under its token and full name. -/
def insert (r : Registry) (token : Token) (fullName : String) (type : TypeId) : Registry :=
  ⟨r.types.insert token type, r.names ++ [(fullName, token)]⟩

/-- The type of a token. -/
def get? (r : Registry) (token : Token) : Option TypeId := r.types.get? token

/-- The type of a full name. -/
def find? (r : Registry) (fullName : String) : Option TypeId :=
  r.names.findSome? fun (name, token) => if name = fullName then r.types.get? token else none

/-- The number of registered types. -/
def size (r : Registry) : Nat := r.types.size

/-- The registered types in token order. -/
def toList (r : Registry) : List (Token × TypeId) := r.types.toList

theorem get?_insert (r : Registry) (token q : Token) (fullName : String) (type : TypeId) :
    (r.insert token fullName type).get? q = if q = token then some type else r.get? q :=
  TokenMap.get?_insert r.types token q type

end Registry

end SetterLoom
