import SetterLoom.Text.Digits
import SetterLoom.Text.Glyph

/-!
# Quoted texts and records in listings

A text in a listing stands in double quotes. Quotes and backslashes in it get a backslash, the common
controls their letter, and every other character without a glyph its code point in braces. A record is
listed as its name with its fields in braces; a record that shows only a part of its fields ends in
two dots.
-/

namespace SetterLoom.Text
set_option autoImplicit false

/-- A character by its code point. -/
def codePoint (c : Char) : List Char :=
  ['\\', 'u', '{'] ++ Nat.toDigits 16 c.toNat ++ ['}']

/-- A character as it stands in a quoted text. -/
def escapeChar (c : Char) : List Char :=
  match c with
  | '\x00' => ['\\', '0']
  | '\t' => ['\\', 't']
  | '\r' => ['\\', 'r']
  | '\n' => ['\\', 'n']
  | '\\' => ['\\', '\\']
  | '"' => ['\\', '"']
  | c => if isShown c then [c] else codePoint c

/-- The characters of a quoted text, without the quotes. -/
def escapeAll (cs : List Char) : List Char := cs.flatMap escapeChar

/-- A text in quotes. -/
def quoted (s : String) : String := String.ofList ('"' :: escapeAll s.toList ++ ['"'])

/-- An optional part of a listing. -/
def optional (s : Option String) : String :=
  match s with
  | some s => "Some(" ++ s ++ ")"
  | none => "None"

/-- The fields of a record, each as its name and value. -/
def fieldList (fields : List (String × String)) : String :=
  String.intercalate ", " (fields.map fun f => f.1 ++ ": " ++ f.2)

/-- A record with all its fields. -/
def record (name : String) (fields : List (String × String)) : String :=
  name ++ " \x7b " ++ fieldList fields ++ " \x7d"

/-- A record that shows a part of its fields. -/
def partialRecord (name : String) (fields : List (String × String)) : String :=
  name ++ " \x7b " ++ fieldList fields ++ ", .. \x7d"

end SetterLoom.Text
