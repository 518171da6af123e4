/-!
# References into a module

A module numbers its types and its methods in the order in which they are made. A reference is
such a number; it may be held by anyone and keeps nothing alive, so looking it up can fail once the
module has let the entry go.
-/

namespace SetterLoom
set_option autoImplicit false

/-- A reference to a type. -/
structure TypeId where
  index : Nat
  deriving DecidableEq, Repr, Inhabited

/-- A reference to a method. -/
structure MethodId where
  index : Nat
  deriving DecidableEq, Repr, Inhabited

end SetterLoom
