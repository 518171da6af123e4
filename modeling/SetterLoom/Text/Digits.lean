/-!
# Numbers of a fixed least width

Tokens are written as eight hexadecimal digits and labels as at least four decimal ones. A number
that needs more digits than the width is written in full.
-/

namespace SetterLoom.Text
set_option autoImplicit false

/-- Fill up with zeros on the left. -/
def padded (width : Nat) (digits : List Char) : List Char :=
  List.replicate (width - digits.length) '0' ++ digits

/-- Lower-case hexadecimal digits, at least `width` of them. -/
def hex (width n : Nat) : String :=
  String.ofList (padded width (Nat.toDigits 16 n))

/-- Decimal digits, at least `width` of them. -/
def decimal (width n : Nat) : String :=
  String.ofList (padded width (Nat.toDigits 10 n))

end SetterLoom.Text
