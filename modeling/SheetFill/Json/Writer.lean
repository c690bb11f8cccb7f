import SheetFill.Json.Value

/-!
# Writing JSON

A value is written compactly, on one line. Strings are written as they are but for quotes, backslashes
and control characters.

## Main definitions

* `quote` — a string in quotes.
* `Value.write` — the text of a value.
-/

namespace SheetFill.Json

open Text

/-- The hexadecimal digit of a number below sixteen. -/
def hexDigit (n : Nat) : Char := if n < 10 then Char.ofNat (48 + n) else Char.ofNat (87 + n)

/-- A character inside a string. -/
def escape (c : Char) : List Char :=
  if c = '"' then ['\\', '"']
  else if c = '\\' then ['\\', '\\']
  else if c = '\x08' then ['\\', 'b']
  else if c = '\t' then ['\\', 't']
  else if c = '\n' then ['\\', 'n']
  else if c = '\x0c' then ['\\', 'f']
  else if c = '\r' then ['\\', 'r']
  else if c.toNat < 0x20 then
    ['\\', 'u', '0', '0', hexDigit (c.toNat / 16), hexDigit (c.toNat % 16)]
  else [c]

/-- A string in quotes. -/
def quote (s : String) : List Char := '"' :: (s.toList.flatMap escape ++ ['"'])

mutual

/-- The characters of a value. -/
def Value.chars : Value → List Char
  | .null => ['n', 'u', 'l', 'l']
  | .bool true => ['t', 'r', 'u', 'e']
  | .bool false => ['f', 'a', 'l', 's', 'e']
  | .number n => n.text.toList
  | .string s => quote s
  | .array items => '[' :: (Value.itemChars items ++ [']'])
  | .object members => '{' :: (Value.memberChars members ++ ['}'])

/-- The items of an array, separated by commas. -/
def Value.itemChars : List Value → List Char
  | [] => []
  | [v] => v.chars
  | v :: w :: rest => v.chars ++ ',' :: Value.itemChars (w :: rest)

/-- The members of an object, separated by commas. -/
def Value.memberChars : List (String × Value) → List Char
  | [] => []
  | [(k, v)] => quote k ++ ':' :: v.chars
  | (k, v) :: m :: rest => quote k ++ ':' :: (v.chars ++ ',' :: Value.memberChars (m :: rest))

end

/-- The text of a value. -/
def Value.write (v : Value) : String := String.ofList v.chars

end SheetFill.Json
