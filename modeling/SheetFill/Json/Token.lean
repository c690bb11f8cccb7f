import SheetFill.Json.Value

/-!
# JSON tokens

The tokens of a JSON text: punctuation, strings, numbers and the three literal words. Between tokens
there may be spaces, tabs and line ends, and no other blanks. A run of letters, digits, signs and
points is one word, which must be a literal or a number as a whole.

In a string, control characters have to be escaped. A code unit above the basic plane is written as a
pair of escaped surrogates; a surrogate on its own stands for nothing and is refused.

## Main definitions

* `readString` — the text of a string after its opening quote.
* `tokens` — the tokens of a text.
-/

namespace SheetFill.Json

/-- A token of a JSON text. -/
inductive Token where
  | openArray
  | closeArray
  | openObject
  | closeObject
  | comma
  | colon
  | string (chars : List Char)
  /-- A number, a truth value or null. -/
  | scalar (value : Value)

/-- The characters allowed between tokens. -/
def isSpace (c : Char) : Bool := c == ' ' || c == '\t' || c == '\n' || c == '\r'

/-! ## Strings -/

/-- The value of a hexadecimal digit. -/
def hexValue (c : Char) : Option Nat :=
  if '0' ≤ c ∧ c ≤ '9' then some (c.toNat - 48)
  else if 'a' ≤ c ∧ c ≤ 'f' then some (c.toNat - 87)
  else if 'A' ≤ c ∧ c ≤ 'F' then some (c.toNat - 55)
  else none

/-- The value of four hexadecimal digits. -/
def codeUnit (a b c d : Char) : Option Nat :=
  match hexValue a, hexValue b, hexValue c, hexValue d with
  | some a, some b, some c, some d => some (((a * 16 + b) * 16 + c) * 16 + d)
  | _, _, _, _ => none

/-- Is the code unit the first of a surrogate pair? -/
def isHighSurrogate (u : Nat) : Bool := 0xD800 ≤ u && u ≤ 0xDBFF

/-- Is the code unit the second of a surrogate pair? -/
def isLowSurrogate (u : Nat) : Bool := 0xDC00 ≤ u && u ≤ 0xDFFF

/-- The character of a surrogate pair. -/
def ofSurrogates (high low : Nat) : Char :=
  Char.ofNat (0x10000 + (high - 0xD800) * 0x400 + (low - 0xDC00))

/-- The character that a letter stands for after a backslash. -/
def escaped (c : Char) : Option Char :=
  if c = '"' ∨ c = '\\' ∨ c = '/' then some c
  else if c = 'b' then some '\x08'
  else if c = 'f' then some '\x0c'
  else if c = 'n' then some '\n'
  else if c = 'r' then some '\r'
  else if c = 't' then some '\t'
  else none

/-- Puts a character in front of a string that was read. -/
def prepend (c : Char) : Option (List Char × List Char) → Option (List Char × List Char)
  | none => none
  | some (cs, rest) => some (c :: cs, rest)

/-- Reads a string after its opening quote: its text, and what follows the closing quote. -/
def readString : List Char → Option (List Char × List Char)
  | [] => none
  | '"' :: rest => some ([], rest)
  | '\\' :: 'u' :: a :: b :: c :: d :: rest =>
    match codeUnit a b c d with
    | none => none
    | some u =>
      if isLowSurrogate u then none
      else if isHighSurrogate u then
        match rest with
        | '\\' :: 'u' :: a :: b :: c :: d :: rest =>
          match codeUnit a b c d with
          | none => none
          | some v =>
            if isLowSurrogate v then prepend (ofSurrogates u v) (readString rest) else none
        | _ => none
      else prepend (Char.ofNat u) (readString rest)
  | '\\' :: c :: rest =>
    match escaped c with
    | none => none
    | some c => prepend c (readString rest)
  | c :: rest => if c.toNat < 0x20 then none else prepend c (readString rest)

theorem length_le_of_prepend {c : Char} {read : Option (List Char × List Char)} {s rest : List Char}
    {n : Nat} (h : prepend c read = some (s, rest))
    (ih : ∀ s rest, read = some (s, rest) → rest.length ≤ n) : rest.length ≤ n := by
  cases read with
  | none => cases h
  | some p =>
      obtain ⟨t, r⟩ := p
      cases h
      exact ih t rest rfl

theorem length_le_of_readString {cs s rest : List Char} (h : readString cs = some (s, rest)) :
    rest.length ≤ cs.length := by
  fun_induction readString cs generalizing s rest with
  | case1 => cases h
  | case2 r => cases h; simp
  | case3 => cases h
  | case4 => cases h
  | case5 => cases h
  | case6 a b c d u hu _ _ a' b' c' d' r v hv _ ih =>
      refine length_le_of_prepend h fun t q ht => ?_
      have := ih ht
      simp only [List.length_cons]
      omega
  | case7 => cases h
  | case8 => cases h
  | case9 a b c d r u hu _ _ ih =>
      refine length_le_of_prepend h fun t q ht => ?_
      have := ih ht
      simp only [List.length_cons]
      omega
  | case10 => cases h
  | case11 c r _ c' _ ih =>
      refine length_le_of_prepend h fun t q ht => ?_
      have := ih ht
      simp only [List.length_cons]
      omega
  | case12 => cases h
  | case13 c r _ _ _ _ ih =>
      refine length_le_of_prepend h fun t q ht => ?_
      have := ih ht
      simp only [List.length_cons]
      omega

/-! ## Texts -/

/-- The characters of literals and numbers. -/
def isWordChar (c : Char) : Bool := c.isAlphanum || c == '-' || c == '+' || c == '.'

/-- The token of a word. -/
def ofWord (word : List Char) : Option Token :=
  if word = ['t', 'r', 'u', 'e'] then some (.scalar (.bool true))
  else if word = ['f', 'a', 'l', 's', 'e'] then some (.scalar (.bool false))
  else if word = ['n', 'u', 'l', 'l'] then some (.scalar .null)
  else (Number.read? word).map fun n => .scalar (.number n)

/-- The punctuation token of a character. -/
def punctuation? (c : Char) : Option Token :=
  if c = '[' then some .openArray
  else if c = ']' then some .closeArray
  else if c = '{' then some .openObject
  else if c = '}' then some .closeObject
  else if c = ',' then some .comma
  else if c = ':' then some .colon
  else none

/-- The tokens of a text, if it consists of tokens. -/
def tokens : List Char → Option (List Token)
  | [] => some []
  | c :: cs =>
    if isSpace c then tokens cs
    else match punctuation? c with
      | some t => (tokens cs).map (t :: ·)
      | none =>
        if c = '"' then
          match _h : readString cs with
          | none => none
          | some (s, rest) => (tokens rest).map (.string s :: ·)
        else if isWordChar c then
          match ofWord (c :: cs.takeWhile isWordChar) with
          | none => none
          | some t => (tokens (cs.dropWhile isWordChar)).map (t :: ·)
        else none
termination_by cs => cs.length
decreasing_by
  · simp only [List.length_cons]; omega
  · simp only [List.length_cons]; omega
  · have := length_le_of_readString _h
    simp only [List.length_cons]
    omega
  · have := (List.dropWhile_suffix (p := isWordChar) (l := cs)).length_le
    simp only [List.length_cons]
    omega

end SheetFill.Json
