import SheetFill.Text.Decimal
import SheetFill.Text.LowerCase

/-!
# Sheet names

A workbook holds sheet names to 31 characters, and no two may be equal but for case. Names given out
are cut to that length, and a name that was given out before gets a number, from 2 upwards; the name is
cut further so that the number fits.

Numbers are tried in turn until the numbered name is free. Long names with different numbers may
coincide, since a longer number cuts off more of the name, but numbers of equal length never do. So if
`n` names are in use, one of the numbers with at most as many digits as `12 n + 10` is free, which
bounds the search.

## Main definitions

* `SheetNames.register` — the name given out for a wanted one, and the names in use after it.
-/

namespace SheetFill.Output

open Text

/-- The lower-case forms of the names in use. -/
structure SheetNames where
  used : List String
  deriving DecidableEq, Repr

namespace SheetNames

/-- No name is in use. -/
def empty : SheetNames := ⟨[]⟩

/-- The largest number of characters of a sheet name. -/
def maxChars : Nat := 31

/-- The first `n` characters. -/
def cutTo (n : Nat) (name : String) : String := String.ofList (name.toList.take n)

/-- The name with a number in the room that a name has. -/
def numbered (base : String) (number : Nat) : String :=
  let digits := decimal number
  cutTo (maxChars - digits.length) base ++ digits

/-- Is the name in use, but for case? -/
def inUse (names : SheetNames) (name : String) : Bool := names.used.contains (lowerCase name)

/-- The first of `tries` numbered names, from `number` on, that is not in use. -/
def firstFree (names : SheetNames) (base : String) (number : Nat) : Nat → String
  | 0 => numbered base number
  | tries + 1 =>
    if names.inUse (numbered base number) then firstFree names base (number + 1) tries
    else numbered base number

/-- The name given out for a wanted name; an empty one stands for `Sheet`. -/
def choose (names : SheetNames) (wanted : String) : String :=
  let base := if wanted.isEmpty then "Sheet" else wanted
  if names.inUse (cutTo maxChars base) then firstFree names base 2 (12 * names.used.length + 10)
  else cutTo maxChars base

/-- Gives out a name. -/
def register (names : SheetNames) (wanted : String) : String × SheetNames :=
  let name := names.choose wanted
  (name, ⟨lowerCase name :: names.used⟩)

/-- The number of names given out. -/
def size (names : SheetNames) : Nat := names.used.length

/-- Has no name been given out? -/
def isEmpty (names : SheetNames) : Bool := names.used.isEmpty

end SheetNames

end SheetFill.Output
