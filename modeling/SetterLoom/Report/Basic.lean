import SetterLoom.Token
import SetterLoom.Machine.Value

/-!
# Reports

What tools show of a module, a pass or a machine is a tree of named parts. A report says what there is to
show and in which order, and leaves the notation to the tool.
-/

namespace SetterLoom
set_option autoImplicit false

/-- A report. -/
inductive Report where
  | nothing
  | truth (value : Bool)
  | number (value : Int)
  | text (value : String)
  | list (parts : List Report)
  | record (parts : List (String × Report))

namespace Report

instance : Inhabited Report := ⟨nothing⟩

instance : Coe Bool Report := ⟨truth⟩
instance : Coe Int Report := ⟨number⟩
instance : Coe Nat Report := ⟨fun n => number n⟩
instance : Coe UInt32 Report := ⟨fun n => number n.toNat⟩
instance : Coe Int32 Report := ⟨fun n => number n.toInt⟩
instance : Coe String Report := ⟨text⟩
instance : Coe Token Report := ⟨fun t => text t.text⟩
instance : Coe HeapRef Report := ⟨fun r => number r.id⟩

/-- The report of something that may be absent. -/
def ofOption {α : Type} (f : α → Report) (a : Option α) : Report := a.elim nothing f

/-- The reports of several things of a kind. -/
def each {α : Type} (f : α → Report) (as : List α) : Report := list (as.map f)

/-- A text that may be absent. -/
def optionalText (s : Option String) : Report := ofOption text s

/-- Several texts. -/
def texts (ss : List String) : Report := each text ss

/-- Several numbers. -/
def numbers (ns : List Nat) : Report := each (fun (n : Nat) => number n) ns

end Report

end SetterLoom
