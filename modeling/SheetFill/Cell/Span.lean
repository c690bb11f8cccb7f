/-!
# Reference spans in a cell text

A cell text mixes literal text with references written between markers: `$…$` for a plain reference,
`#…#` for a group reference. A marker opens a span only if the same marker follows on the same line,
and the span ends at the first such one; any other marker is a literal character. Inside a span the
other marker means nothing.

`scan` reads a text into its *pieces*: literal characters and whole spans. Tokens and filter cuts are
both read off the pieces, so they agree on what a span is.

## Main definitions

* `scan` — the pieces of a text.
* `tokenize` — maximal literal stretches and spans, in order.
* `splitOutside` — the text cut at a separator, except inside spans.

## Main results

* `scan_chars` — the pieces spell the text.
-/

namespace SheetFill.Cell

/-- The two kinds of reference. -/
inductive Mode where
  /-- Refers to one text. -/
  | plain
  /-- Drives, or takes part in, the repetition of a row. -/
  | group
  deriving DecidableEq, Repr, Inhabited

namespace Mode

/-- The character that stands on both sides of a reference. -/
def marker : Mode → Char
  | .plain => '$'
  | .group => '#'

/-- The kind of reference that a character may open. -/
def ofChar? (c : Char) : Option Mode :=
  if c = '$' then some .plain else if c = '#' then some .group else none

theorem ofChar?_eq_some_iff {c : Char} {m : Mode} : ofChar? c = some m ↔ c = m.marker := by
  unfold ofChar?
  constructor
  · split
    · intro h; cases h; assumption
    · split
      · intro h; cases h; assumption
      · intro h; cases h
  · rintro rfl
    cases m <;> rfl

end Mode

/-- A piece of a cell text. -/
inductive Piece where
  | literal (c : Char)
  | span (mode : Mode) (body : List Char)
  deriving DecidableEq, Repr

/-- The characters that a piece stands for, markers included. -/
def Piece.chars : Piece → List Char
  | .literal c => [c]
  | .span mode body => mode.marker :: body ++ [mode.marker]

/-- The text before the next `c` on this line and the text after it. -/
def untilMarker (c : Char) : List Char → Option (List Char × List Char)
  | [] => none
  | d :: ds =>
    if d = c then some ([], ds)
    else if d = '\n' then none
    else match untilMarker c ds with
      | none => none
      | some (body, rest) => some (d :: body, rest)

theorem append_of_untilMarker {c : Char} {cs body rest : List Char}
    (h : untilMarker c cs = some (body, rest)) : cs = body ++ c :: rest := by
  induction cs generalizing body with
  | nil => simp [untilMarker] at h
  | cons d ds ih =>
      simp only [untilMarker] at h
      split at h
      · next hd =>
          cases h
          simp [hd]
      · split at h
        · cases h
        · split at h
          · cases h
          · next hds =>
              cases h
              simp [ih hds]

theorem length_lt_of_untilMarker {c : Char} {cs body rest : List Char}
    (h : untilMarker c cs = some (body, rest)) : rest.length < cs.length := by
  rw [append_of_untilMarker h]
  simp only [List.length_append, List.length_cons]
  omega

/-- The pieces of a text. -/
def scan : List Char → List Piece
  | [] => []
  | c :: cs =>
    match Mode.ofChar? c with
    | none => .literal c :: scan cs
    | some mode =>
      match _h : untilMarker c cs with
      | none => .literal c :: scan cs
      | some (body, rest) => .span mode body :: scan rest
termination_by cs => cs.length
decreasing_by
  · exact Nat.lt_succ_self _
  · exact Nat.lt_succ_self _
  · exact Nat.lt_succ_of_lt (length_lt_of_untilMarker _h)

theorem scan_chars (cs : List Char) : (scan cs).flatMap Piece.chars = cs := by
  fun_induction scan cs with
  | case1 => rfl
  | case2 c cs _ ih => simp [Piece.chars, ih]
  | case3 c cs _ _ _ ih => simp [Piece.chars, ih]
  | case4 c cs mode hmode body rest h ih =>
      have hc := Mode.ofChar?_eq_some_iff.mp hmode
      simp [Piece.chars, ih, append_of_untilMarker h, hc]

/-! ## Tokens -/

/-- A token of a cell text. -/
inductive Token where
  | text (chars : List Char)
  | reference (mode : Mode) (body : List Char)
  deriving DecidableEq, Repr

/-- The text of a token, markers included. -/
def Token.chars : Token → List Char
  | .text chars => chars
  | .reference mode body => mode.marker :: body ++ [mode.marker]

/-- Puts a piece in front of tokens; literal characters join the text that follows them. -/
def Token.addPiece (piece : Piece) (tokens : List Token) : List Token :=
  match piece, tokens with
  | .span mode body, tokens => .reference mode body :: tokens
  | .literal c, .text chars :: tokens => .text (c :: chars) :: tokens
  | .literal c, tokens => .text [c] :: tokens

/-- The tokens of a text. -/
def tokenize (cs : List Char) : List Token := (scan cs).foldr Token.addPiece []

/-! ## Cuts outside spans -/

/-- The stretches of pieces between the literal occurrences of a separator. -/
def splitPieces (separator : Char) : List Piece → List (List Piece)
  | [] => [[]]
  | piece :: pieces =>
    if piece = .literal separator then [] :: splitPieces separator pieces
    else match splitPieces separator pieces with
      | [] => [[piece]]
      | part :: parts => (piece :: part) :: parts

/-- A text cut at every separator that is not inside a span. -/
def splitOutside (separator : Char) (cs : List Char) : List (List Char) :=
  (splitPieces separator (scan cs)).map (·.flatMap Piece.chars)

end SheetFill.Cell
