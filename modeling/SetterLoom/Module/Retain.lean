import SetterLoom.Module.Basic

/-!
# What a module keeps

A module keeps the types that are registered and those that someone outside holds, and with a type
the methods that the type and its members own. Every other entry is let go, and references to it fail
from then on: base types, interfaces, operands and declaring types hold nothing.
-/

namespace SetterLoom
set_option autoImplicit false

namespace Module

/-- The types that stay: the registered ones and the held ones. -/
def keptTypes (m : Module) (held : List TypeId) : List TypeId := m.registry.types.values ++ held

/-- The methods that stay: those owned by the types that stay and the held ones. -/
def keptMethods (m : Module) (heldTypes : List TypeId) (heldMethods : List MethodId) :
    List MethodId :=
  (m.keptTypes heldTypes).flatMap (fun t => (m.type? t).elim [] (·.ownedMethods)) ++ heldMethods

/-- Entries whose position is not wanted are let go. -/
def keepAt {α : Type} (keep : Nat → Bool) (entries : Array (Option α)) : Array (Option α) :=
  entries.mapIdx fun i e => if keep i then e else none

/-- Let go of every type and method that is neither registered nor held. -/
def retain (m : Module) (heldTypes : List TypeId) (heldMethods : List MethodId) : Module :=
  let types := m.keptTypes heldTypes
  let methods := m.keptMethods heldTypes heldMethods
  { m with
    types := keepAt (fun i => types.contains ⟨i⟩) m.types
    methods := keepAt (fun i => methods.contains ⟨i⟩) m.methods }

end Module

end SetterLoom
