import SetterLoom.Markup.Attribute

/-!
# Constructs of a markup text

A construct stands between an opening bracket and the closing bracket that ends it: a tag, a comment,
a section of character data, a document type or a processing instruction. Which closing bracket
ends it depends on how the construct begins: a tag ends at the first one outside quotes, a comment at
one behind two dashes, and so on.
-/

namespace SetterLoom.Markup
set_option autoImplicit false

/-! ## Where a construct ends -/

/-- The position of the first closing bracket whose preceding text, read backwards, is accepted. -/
def closeWhere? (accepts : List Char → Bool) : List Char → List Char → Option Nat
  | _, [] => none
  | seen, c :: rest =>
    if c == '>' && accepts seen then some seen.length
    else closeWhere? accepts (c :: seen) rest

/-- The text read backwards ends a comment that it begins. -/
def closesComment : List Char → Bool
  | '-' :: '-' :: before => before.length > 2
  | _ => false

/-- The text read backwards ends a section of character data. -/
def closesData : List Char → Bool
  | ']' :: ']' :: _ => true
  | _ => false

/-- The text read backwards ends a processing instruction. -/
def closesInstruction : List Char → Bool
  | '?' :: _ => true
  | _ => false

/-- The position of the closing bracket at which all brackets opened on the way are closed. -/
def balancedClose? : Nat → Nat → List Char → Option Nat
  | _, _, [] => none
  | position, depth, c :: rest =>
    if c == '<' then balancedClose? (position + 1) (depth + 1) rest
    else if c == '>' then
      match depth with
      | 0 => some position
      | depth + 1 => balancedClose? (position + 1) depth rest
    else balancedClose? (position + 1) depth rest

/-- The position of the first closing bracket outside quotes, given the open quote. -/
def unquotedClose? : Nat → Option Char → List Char → Option Nat
  | _, _, [] => none
  | position, none, c :: rest =>
    if c == '>' then some position
    else if c == '"' || c == '\'' then unquotedClose? (position + 1) (some c) rest
    else unquotedClose? (position + 1) none rest
  | position, some quote, c :: rest =>
    unquotedClose? (position + 1) (if c == quote then none else some quote) rest

/-- The position of the closing bracket of the construct that a text begins with. -/
def end? (text : List Char) : Option Nat :=
  match text with
  | [] => none
  | '!' :: '[' :: _ => closeWhere? closesData [] text
  | '!' :: '-' :: _ => closeWhere? closesComment [] text
  | '!' :: 'D' :: _ => balancedClose? 0 0 text
  | '!' :: 'd' :: _ => balancedClose? 0 0 text
  | '!' :: _ => none
  | '?' :: _ => closeWhere? closesInstruction [] text
  | _ => unquotedClose? 0 none text

/-! ## What a construct is -/

/-- What stands between the brackets. -/
inductive Construct where
  /-- An element begins. -/
  | opening (name : List Char) (attributes : Attributes)
  /-- An element without content. -/
  | empty (name : List Char) (attributes : Attributes)
  /-- An element ends. -/
  | closing (name : List Char)
  /-- Something that is no element. -/
  | aside
  deriving DecidableEq, Repr

/-- The text starts with the given one, whatever the case of its letters. -/
def startsUncased (start : String) (text : List Char) : Bool :=
  (text.take start.length).map Char.toLower == start.toList.map Char.toLower

/-- The content without the blanks at its end; a content of blanks is left alone. -/
def withoutTrailingBlanks (content : List Char) : List Char :=
  let kept := (content.reverse.dropWhile isBlank).reverse
  if kept.isEmpty then content else kept

/-- The name that a tag begins with. -/
def nameOf (tag : List Char) : List Char := tag.takeWhile fun c => !isBlank c

/-- The attributes behind the name of a tag. -/
def attributesOf (tag : List Char) : Attributes :=
  readAttributes [] (tag.dropWhile fun c => !isBlank c)

/-- The construct with the given content, if there is such a construct. -/
def Construct.ofContent? (content : List Char) : Option Construct :=
  match content with
  | '!' :: '[' :: _ => if "![CDATA[".toList.isPrefixOf content then some .aside else none
  | '!' :: '-' :: _ => if "!--".toList.isPrefixOf content then some .aside else none
  | '!' :: _ =>
    if startsUncased "!DOCTYPE" content && !(content.drop 8).all isBlank then some .aside else none
  | '?' :: rest => if rest.isEmpty then none else some .aside
  | '/' :: name => some (.closing (withoutTrailingBlanks name))
  | tag =>
    if tag.getLast? == some '/' then
      some (.empty (nameOf tag.dropLast) (attributesOf tag.dropLast))
    else some (.opening (nameOf tag) (attributesOf tag))

end SetterLoom.Markup
