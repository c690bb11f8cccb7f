import SheetFill.Text.Decimal

/-!
# XML elements

The elements of a document that holds data: an element has no content, or a text, or elements. So the
writer may break lines and indent between elements without touching a text.

Names are written as they are; attribute values and texts are escaped, by the same five escapes.

## Main definitions

* `escape` — a character of a text or an attribute value.
* `Element.chars` — an element on lines of its own.
-/

namespace SheetFill.Xml

/-- An attribute: a name and a value. -/
structure Attribute where
  name : String
  value : String
  deriving DecidableEq, Repr, Inhabited

/-- An element. -/
inductive Element where
  /-- An element without content, in one tag. -/
  | empty (name : String) (attributes : List Attribute)
  /-- An element with a text, between two tags on one line. -/
  | text (name : String) (attributes : List Attribute) (content : String)
  /-- An element with elements, between two tags on lines of their own. -/
  | parent (name : String) (attributes : List Attribute) (children : List Element)
  deriving Repr, Inhabited

/-- A character of a text or an attribute value. -/
def escape (c : Char) : List Char :=
  if c = '<' then ['&', 'l', 't', ';']
  else if c = '>' then ['&', 'g', 't', ';']
  else if c = '&' then ['&', 'a', 'm', 'p', ';']
  else if c = '\'' then ['&', 'a', 'p', 'o', 's', ';']
  else if c = '"' then ['&', 'q', 'u', 'o', 't', ';']
  else [c]

/-- An escaped text. -/
def escaped (s : String) : List Char := s.toList.flatMap escape

namespace Attribute

/-- The characters of an attribute, the blank before it included. -/
def chars (a : Attribute) : List Char :=
  ' ' :: (a.name.toList ++ '=' :: '"' :: (escaped a.value ++ ['"']))

/-- An attribute whose value is a number. -/
def number (name : String) (n : Nat) : Attribute := ⟨name, Text.decimal n⟩

end Attribute

/-- The start of a new line, indented by two blanks for every level. -/
def lineStart (level : Nat) : List Char := '\n' :: List.replicate (2 * level) ' '

/-- A start tag, still open. -/
def tagStart (name : String) (attributes : List Attribute) : List Char :=
  '<' :: (name.toList ++ attributes.flatMap Attribute.chars)

/-- An end tag. -/
def endTag (name : String) : List Char := '<' :: '/' :: (name.toList ++ ['>'])

mutual

/-- The characters of an element at an indentation level, the line break before it included. -/
def Element.chars (level : Nat) : Element → List Char
  | .empty name attributes => lineStart level ++ (tagStart name attributes ++ ['/', '>'])
  | .text name attributes content =>
    lineStart level ++ (tagStart name attributes ++ '>' :: (escaped content ++ endTag name))
  | .parent name attributes children =>
    lineStart level ++ (tagStart name attributes ++ '>' :: (Element.listChars (level + 1) children ++
      (lineStart level ++ endTag name)))

/-- The characters of elements at an indentation level. -/
def Element.listChars (level : Nat) : List Element → List Char
  | [] => []
  | e :: rest => e.chars level ++ Element.listChars level rest

end

end SheetFill.Xml
