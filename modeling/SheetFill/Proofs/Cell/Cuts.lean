import SheetFill.Proofs.Cell.Tokens
import SheetFill.Text.Cut

/-!
# Cuts outside spans

A cell text is cut at a separator, and each part is read again, from its own first character on. A marker that is
not closed in the text has no chance to be closed in a part, and a span is never cut; so what is read from a part
is what the text has there.

Spans have places here, as stretches of the text. A position that lies in no stretch holds a literal character,
and the cuts are the positions of this kind where the separator stands.

## Main definitions

* `stretches` — the places of the spans of a text.
* `Outside` — the positions in no span.
* `IsCut` — where the parts of a text end.

## Main results

* `IsScan.of_mem_splitPieces` — a part of scanned pieces is the scan of what it spells.
* `outside_iff` — outside the spans stand the literal characters.
* `splitOutside_agrees` — cuts, spans and tokens of the parts against those of the text.
-/

namespace SheetFill.Cell

open Text

/-! ## Stretches of scanned pieces -/

theorem restOfLine_append_left {c : Char} {cs ds : List Char} (h : c ∈ restOfLine cs) :
    c ∈ restOfLine (cs ++ ds) := by
  rw [restOfLine, List.takeWhile_append]
  split
  · exact List.mem_append_left _ ((List.takeWhile_prefix _).subset h)
  · exact h

namespace IsScan

theorem append_right {ps qs : List Piece} (h : IsScan (ps ++ qs)) : IsScan qs := by
  induction ps with
  | nil => exact h
  | cons p ps ih =>
      cases h with
      | literal hrest _ => exact ih hrest
      | span hrest _ _ => exact ih hrest

/-- A marker that is not closed is not closed in less text either. -/
theorem append_left {ps qs : List Piece} (h : IsScan (ps ++ qs)) : IsScan ps := by
  induction ps with
  | nil => exact .nil
  | cons p ps ih =>
      cases h with
      | literal hrest hopen =>
          refine .literal (ih hrest) fun mode hc hmem => hopen mode hc ?_
          show _ ∈ restOfLine ((ps ++ qs).flatMap Piece.chars)
          rw [List.flatMap_append]
          exact restOfLine_append_left hmem
      | span hrest hclosed hline => exact .span (ih hrest) hclosed hline

end IsScan

/-! ## Parts of a list of pieces -/

theorem splitPieces_ne_nil (sep : Char) (pieces : List Piece) : splitPieces sep pieces ≠ [] := by
  cases pieces with
  | nil => exact List.cons_ne_nil _ _
  | cons p ps =>
      rw [splitPieces]
      split
      · exact List.cons_ne_nil _ _
      · split <;> exact List.cons_ne_nil _ _

theorem splitPieces_cons_of_ne {sep : Char} {p : Piece} (h : p ≠ .literal sep) (ps : List Piece) :
    ∃ part parts, splitPieces sep ps = part :: parts ∧ splitPieces sep (p :: ps) = (p :: part) :: parts := by
  cases hps : splitPieces sep ps with
  | nil => exact absurd hps (splitPieces_ne_nil sep ps)
  | cons part parts => exact ⟨part, parts, rfl, by rw [splitPieces, if_neg h, hps]⟩

/-- The parts before and after a part, with the separators that follow and precede them. -/
theorem eq_of_splitPieces {sep : Char} {pieces : List Piece} {before after : List (List Piece)}
    {part : List Piece} (h : splitPieces sep pieces = before ++ part :: after) :
    pieces = before.flatMap (· ++ [.literal sep]) ++ part ++ after.flatMap (.literal sep :: ·) := by
  induction pieces generalizing before part after with
  | nil =>
      rw [splitPieces, List.singleton_eq_append_iff] at h
      rcases h with ⟨rfl, h⟩ | ⟨-, h⟩
      · cases h
        rfl
      · cases h
  | cons p ps ih =>
      by_cases hp : p = .literal sep
      · rw [splitPieces, if_pos hp] at h
        cases before with
        | nil =>
            obtain ⟨rfl, rfl⟩ := List.cons.inj h
            obtain ⟨first, rest, hfirst⟩ := List.exists_cons_of_ne_nil (splitPieces_ne_nil sep ps)
            have hps : splitPieces sep ps = [] ++ first :: rest := hfirst
            rw [hp, hfirst, ih hps]
            rfl
        | cons b before =>
            obtain ⟨rfl, hps⟩ := List.cons.inj h
            rw [ih hps, hp]
            rfl
      · obtain ⟨first, rest, hfirst, hsplit⟩ := splitPieces_cons_of_ne hp ps
        rw [hsplit] at h
        cases before with
        | nil =>
            obtain ⟨rfl, rfl⟩ := List.cons.inj h
            have hps : splitPieces sep ps = [] ++ first :: rest := hfirst
            rw [ih hps]
            rfl
        | cons b before =>
            obtain ⟨rfl, rfl⟩ := List.cons.inj h
            have hps : splitPieces sep ps = (first :: before) ++ part :: after := hfirst
            rw [ih hps]
            rfl

theorem eq_of_splitPieces_cons {sep : Char} {pieces first : List Piece} {rest : List (List Piece)}
    (h : splitPieces sep pieces = first :: rest) : pieces = first ++ rest.flatMap (.literal sep :: ·) := by
  have hnil : splitPieces sep pieces = [] ++ first :: rest := h
  exact eq_of_splitPieces hnil

theorem splitPieces_append (sep : Char) (ps qs : List Piece) :
    splitPieces sep (ps ++ .literal sep :: qs) = splitPieces sep ps ++ splitPieces sep qs := by
  induction ps with
  | nil =>
      show splitPieces sep (.literal sep :: qs) = [] :: splitPieces sep qs
      rw [splitPieces, if_pos rfl]
  | cons p ps ih =>
      rw [List.cons_append, splitPieces, splitPieces, ih]
      by_cases hp : p = .literal sep
      · rw [if_pos hp, if_pos hp, List.cons_append]
      · rw [if_neg hp, if_neg hp]
        cases hps : splitPieces sep ps with
        | nil => exact absurd hps (splitPieces_ne_nil sep ps)
        | cons part parts => rfl

/-- A part of scanned pieces is the scan of what it spells. -/
theorem IsScan.of_mem_splitPieces {sep : Char} {pieces part : List Piece} (h : IsScan pieces)
    (hpart : part ∈ splitPieces sep pieces) : IsScan part := by
  obtain ⟨before, after, hsplit⟩ := List.append_of_mem hpart
  rw [eq_of_splitPieces hsplit] at h
  exact h.append_left.append_right

/-! ## Places -/

/-- A span at its place in a text: the characters from `start` on, up to but without the one at `stop`. -/
structure Stretch where
  mode : Mode
  start : Nat
  stop : Nat
  deriving DecidableEq, Repr

namespace Stretch

/-- Is the position inside the span, or at one of its markers? -/
def Covers (s : Stretch) (i : Nat) : Prop := s.start ≤ i ∧ i < s.stop

instance (s : Stretch) (i : Nat) : Decidable (s.Covers i) :=
  inferInstanceAs (Decidable (s.start ≤ i ∧ i < s.stop))

/-- The stretch as it stands after `n` more characters. -/
def after (n : Nat) (s : Stretch) : Stretch := ⟨s.mode, n + s.start, n + s.stop⟩

/-- Does the stretch lie between two positions? -/
def within (first last : Nat) (s : Stretch) : Bool := decide (first ≤ s.start) && decide (s.stop ≤ last)

end Stretch

/-- The places of the spans among pieces that stand after `n` characters. -/
def stretchesFrom : Nat → List Piece → List Stretch
  | _, [] => []
  | n, .literal _ :: pieces => stretchesFrom (n + 1) pieces
  | n, .span mode body :: pieces =>
    ⟨mode, n, n + (body.length + 2)⟩ :: stretchesFrom (n + (body.length + 2)) pieces

/-- The places of the spans of a text. -/
def stretches (cs : List Char) : List Stretch := stretchesFrom 0 (scan cs)

/-- A position that no span covers. -/
def Outside (cs : List Char) (i : Nat) : Prop := ∀ s ∈ stretches cs, ¬ s.Covers i

instance (cs : List Char) (i : Nat) : Decidable (Outside cs i) :=
  inferInstanceAs (Decidable (∀ s ∈ stretches cs, ¬ s.Covers i))

theorem length_chars_span (mode : Mode) (body : List Char) :
    (Piece.span mode body).chars.length = body.length + 2 := by
  simp [Piece.chars]

theorem stretchesFrom_append (n : Nat) (ps qs : List Piece) :
    stretchesFrom n (ps ++ qs) =
      stretchesFrom n ps ++ stretchesFrom (n + (ps.flatMap Piece.chars).length) qs := by
  induction ps generalizing n with
  | nil => rfl
  | cons p ps ih =>
      rw [List.flatMap_cons, List.length_append, ← Nat.add_assoc]
      cases p with
      | literal c => exact ih (n + 1)
      | span mode body =>
          rw [length_chars_span, List.cons_append, stretchesFrom, ih]
          rfl

theorem stretchesFrom_add (k n : Nat) (ps : List Piece) :
    stretchesFrom (k + n) ps = (stretchesFrom n ps).map (Stretch.after k) := by
  induction ps generalizing n with
  | nil => rfl
  | cons p ps ih =>
      cases p with
      | literal c => exact ih (n + 1)
      | span mode body =>
          rw [stretchesFrom, stretchesFrom, List.map_cons, ← ih, Stretch.after]
          simp only [Nat.add_assoc]

/-- The spans among pieces stand where the pieces do. -/
theorem bounds_of_mem_stretchesFrom {n : Nat} {ps : List Piece} {s : Stretch}
    (h : s ∈ stretchesFrom n ps) :
    n ≤ s.start ∧ s.start < s.stop ∧ s.stop ≤ n + (ps.flatMap Piece.chars).length := by
  induction ps generalizing n with
  | nil => cases h
  | cons p ps ih =>
      rw [List.flatMap_cons, List.length_append]
      cases p with
      | literal c =>
          obtain ⟨hstart, hlt, hstop⟩ := ih h
          have hlength : (Piece.literal c).chars.length = 1 := rfl
          omega
      | span mode body =>
          have hlength := length_chars_span mode body
          rcases List.mem_cons.1 h with rfl | h
          · dsimp only
            omega
          · obtain ⟨hstart, hlt, hstop⟩ := ih h
            omega

/-- A position that no span covers holds a literal character. -/
theorem exists_literal {n i : Nat} {c : Char} {ps : List Piece}
    (hc : (ps.flatMap Piece.chars)[i]? = some c) (hout : ∀ s ∈ stretchesFrom n ps, ¬ s.Covers (n + i)) :
    ∃ front back, ps = front ++ .literal c :: back ∧ i = (front.flatMap Piece.chars).length := by
  induction ps generalizing n i with
  | nil => cases hc
  | cons p ps ih =>
      rw [List.flatMap_cons] at hc
      -- the character of this piece, or the rest of the text behind it
      have hbehind (j : Nat) (hi : i = p.chars.length + j)
          (hrest : ∀ s ∈ stretchesFrom (n + p.chars.length) ps, ¬ s.Covers (n + i)) :
          ∃ front back, p :: ps = front ++ .literal c :: back ∧
            i = (front.flatMap Piece.chars).length := by
        rw [hi, List.getElem?_append_right (Nat.le_add_right _ _), Nat.add_sub_cancel_left] at hc
        rw [hi, ← Nat.add_assoc] at hrest
        obtain ⟨front, back, rfl, hj⟩ := ih hc hrest
        refine ⟨p :: front, back, rfl, ?_⟩
        rw [List.flatMap_cons, List.length_append, hi, hj]
      cases p with
      | literal d =>
          cases i with
          | zero =>
              cases hc
              exact ⟨[], ps, rfl, rfl⟩
          | succ i => exact hbehind i (Nat.add_comm i 1) hout
      | span mode body =>
          have hlength := length_chars_span mode body
          have hfirst := hout _ List.mem_cons_self
          have hi : body.length + 2 ≤ i := by
            simp only [Stretch.Covers, not_and, not_lt] at hfirst
            omega
          refine hbehind (i - (body.length + 2)) (by omega) fun s hs => hout s ?_
          rw [hlength] at hs
          exact List.mem_cons_of_mem _ hs

/-- A literal character is covered by no span. -/
theorem not_covers_literal (n : Nat) (front : List Piece) (c : Char) (back : List Piece) :
    ∀ s ∈ stretchesFrom n (front ++ .literal c :: back),
      ¬ s.Covers (n + (front.flatMap Piece.chars).length) := by
  intro s hs hcovers
  rw [stretchesFrom_append, List.mem_append] at hs
  obtain ⟨hstart, hstop⟩ := hcovers
  rcases hs with hs | hs
  · have hbounds := bounds_of_mem_stretchesFrom hs
    omega
  · have hbounds := bounds_of_mem_stretchesFrom (n := n + (front.flatMap Piece.chars).length + 1) hs
    omega

/-- Outside the spans of a text stand its literal characters. -/
theorem outside_iff {cs : List Char} {c : Char} {i : Nat} : (cs[i]? = some c ∧ Outside cs i) ↔
    ∃ front back, scan cs = front ++ .literal c :: back ∧ i = (front.flatMap Piece.chars).length := by
  constructor
  · rintro ⟨hc, hout⟩
    rw [← scan_chars cs] at hc
    refine exists_literal (n := 0) hc fun s hs => ?_
    rw [Nat.zero_add]
    exact hout s hs
  · rintro ⟨front, back, hscan, rfl⟩
    constructor
    · rw [← scan_chars cs, hscan, List.flatMap_append, List.getElem?_append_right (Nat.le_refl _),
        Nat.sub_self]
      rfl
    · intro s hs
      rw [stretches, hscan] at hs
      have hliteral := not_covers_literal 0 front c back s hs
      rwa [Nat.zero_add] at hliteral

/-! ## The parts of a text -/

/-- Where the part behind these ones begins: each of them has a separator after it. -/
def partStart : List (List Char) → Nat
  | [] => 0
  | part :: parts => part.length + 1 + partStart parts

/-- A cut is the end of a part that has another one behind it. -/
def IsCut (sep : Char) (cs : List Char) (i : Nat) : Prop :=
  ∃ before part next after, splitOutside sep cs = before ++ part :: next :: after ∧
    i = partStart before + part.length

theorem length_separated (sep : Char) (parts : List (List Piece)) :
    ((parts.flatMap (· ++ [.literal sep])).flatMap Piece.chars).length =
      partStart (parts.map (·.flatMap Piece.chars)) := by
  induction parts with
  | nil => rfl
  | cons part parts ih =>
      rw [List.flatMap_cons, List.flatMap_append, List.length_append, ih, List.flatMap_append,
        List.length_append]
      rfl

/-- The pieces of a part are among those of the text, behind the parts before it. -/
theorem exists_scan_eq {sep : Char} {cs : List Char} {before after : List (List Char)} {part : List Char}
    (h : splitOutside sep cs = before ++ part :: after) :
    ∃ (front : List Piece) (back : List (List Piece)),
      scan cs = front ++ scan part ++ back.flatMap (.literal sep :: ·) ∧
        (front.flatMap Piece.chars).length = partStart before ∧
        after = back.map (·.flatMap Piece.chars) := by
  obtain ⟨befores, rest, hsplit, rfl, hrest⟩ := List.map_eq_append_iff.1 h
  obtain ⟨pieces, afters, rfl, rfl, rfl⟩ := List.map_eq_cons_iff.1 hrest
  have hpart : IsScan pieces :=
    (isScan_scan cs).of_mem_splitPieces (by rw [hsplit]; exact List.mem_append_right _ List.mem_cons_self)
  refine ⟨befores.flatMap (· ++ [.literal sep]), afters, ?_, length_separated sep befores, rfl⟩
  rw [hpart.scan_eq]
  exact eq_of_splitPieces hsplit

theorem joinWith_splitOutside (sep : Char) (cs : List Char) : joinWith [sep] (splitOutside sep cs) = cs := by
  obtain ⟨first, rest, hsplit⟩ := List.exists_cons_of_ne_nil (splitPieces_ne_nil sep (scan cs))
  have hscan := eq_of_splitPieces_cons hsplit
  rw [splitOutside, hsplit, List.map_cons, joinWith_cons_eq_flatMap, List.flatMap_map]
  conv_rhs => rw [← scan_chars cs, hscan, List.flatMap_append, List.flatMap_assoc]
  rfl

/-- The cuts are the separators outside the spans. -/
theorem isCut_iff {sep : Char} {cs : List Char} {i : Nat} :
    IsCut sep cs i ↔ cs[i]? = some sep ∧ Outside cs i := by
  rw [outside_iff]
  constructor
  · rintro ⟨before, part, next, after, hsplit, rfl⟩
    obtain ⟨front, back, hscan, hfront, hback⟩ := exists_scan_eq hsplit
    cases back with
    | nil => cases hback
    | cons follow back =>
        refine ⟨front ++ scan part, follow ++ back.flatMap (.literal sep :: ·), hscan, ?_⟩
        rw [List.flatMap_append, List.length_append, hfront, scan_chars]
  · rintro ⟨front, back, hscan, rfl⟩
    obtain ⟨befores, part, hfront⟩ :=
      (List.eq_nil_or_concat _).resolve_left (splitPieces_ne_nil sep front)
    rw [List.concat_eq_append] at hfront
    obtain ⟨next, afters, hback⟩ := List.exists_cons_of_ne_nil (splitPieces_ne_nil sep back)
    refine ⟨befores.map (·.flatMap Piece.chars), part.flatMap Piece.chars, next.flatMap Piece.chars,
      afters.map (·.flatMap Piece.chars), ?_, ?_⟩
    · rw [splitOutside, hscan, splitPieces_append, hfront, hback]
      simp
    · conv_lhs => rw [eq_of_splitPieces hfront]
      rw [List.flatMap_nil, List.append_nil, List.flatMap_append, List.length_append, length_separated]

/-- What is read from a part is what the text has between the ends of the part. -/
theorem stretches_splitOutside {sep : Char} {cs : List Char} {before after : List (List Char)}
    {part : List Char} (h : splitOutside sep cs = before ++ part :: after) :
    (stretches part).map (Stretch.after (partStart before)) =
      (stretches cs).filter (Stretch.within (partStart before) (partStart before + part.length)) := by
  obtain ⟨front, back, hscan, hfront, -⟩ := exists_scan_eq h
  have hpart : ((scan part).flatMap Piece.chars).length = part.length := by rw [scan_chars]
  rw [stretches, stretches, ← stretchesFrom_add, Nat.add_zero, hscan, stretchesFrom_append,
    stretchesFrom_append, List.flatMap_append, List.length_append, hfront, hpart, Nat.zero_add,
    Nat.zero_add, List.filter_append, List.filter_append]
  have hleft : (stretchesFrom 0 front).filter
      (Stretch.within (partStart before) (partStart before + part.length)) = [] := by
    refine List.filter_eq_nil_iff.2 fun s hs hwithin => ?_
    have hbounds := bounds_of_mem_stretchesFrom hs
    simp only [Stretch.within, Bool.and_eq_true, decide_eq_true_eq] at hwithin
    omega
  have hinside : (stretchesFrom (partStart before) (scan part)).filter
      (Stretch.within (partStart before) (partStart before + part.length)) =
        stretchesFrom (partStart before) (scan part) := by
    refine List.filter_eq_self.2 fun s hs => ?_
    have hbounds := bounds_of_mem_stretchesFrom hs
    simp only [Stretch.within, Bool.and_eq_true, decide_eq_true_eq]
    omega
  have hright : (stretchesFrom (partStart before + part.length)
      (back.flatMap (.literal sep :: ·))).filter
        (Stretch.within (partStart before) (partStart before + part.length)) = [] := by
    refine List.filter_eq_nil_iff.2 fun s hs hwithin => ?_
    have hbounds := bounds_of_mem_stretchesFrom hs
    simp only [Stretch.within, Bool.and_eq_true, decide_eq_true_eq] at hwithin
    omega
  rw [hleft, hinside, hright, List.nil_append, List.append_nil]

/-! ## The tokens of the parts -/

/-- The mode and the body of a piece that is a span. -/
def Piece.span? : Piece → Option (Mode × List Char)
  | .literal _ => none
  | .span mode body => some (mode, body)

theorem filterMap_span?_addPiece (p : Piece) (tokens : List Token) :
    (Token.addPiece p tokens).filterMap Token.span? = p.span?.toList ++ tokens.filterMap Token.span? := by
  cases p with
  | span mode body => rfl
  | literal c =>
      cases tokens with
      | nil => rfl
      | cons t tokens => cases t <;> rfl

/-- The macros among the tokens of a text are the spans among its pieces. -/
theorem filterMap_span?_tokenize (cs : List Char) :
    (tokenize cs).filterMap Token.span? = (scan cs).flatMap fun p => p.span?.toList := by
  rw [tokenize]
  induction scan cs with
  | nil => rfl
  | cons p ps ih => rw [List.foldr_cons, filterMap_span?_addPiece, ih, List.flatMap_cons]

/-- Nothing but separators stands between the parts, so no span is lost. -/
theorem flatMap_span?_splitOutside (sep : Char) (cs : List Char) :
    ((splitOutside sep cs).flatMap fun part => (tokenize part).filterMap Token.span?) =
      (tokenize cs).filterMap Token.span? := by
  obtain ⟨first, rest, hsplit⟩ := List.exists_cons_of_ne_nil (splitPieces_ne_nil sep (scan cs))
  have hparts : ((splitPieces sep (scan cs)).flatMap fun pieces =>
      (tokenize (pieces.flatMap Piece.chars)).filterMap Token.span?) =
        (splitPieces sep (scan cs)).flatMap fun pieces => pieces.flatMap fun p => p.span?.toList := by
    refine List.flatMap_congr fun pieces hpieces => ?_
    rw [filterMap_span?_tokenize, ((isScan_scan cs).of_mem_splitPieces hpieces).scan_eq]
  rw [splitOutside, List.flatMap_map, hparts, filterMap_span?_tokenize]
  conv_rhs => rw [eq_of_splitPieces_cons hsplit]
  rw [hsplit, List.flatMap_append, List.flatMap_cons, List.flatMap_assoc]
  rfl

/--
The parts of a text joined by the separator are the text. The separator is cut wherever it stands outside the spans,
and nowhere else. The spans of a part, read on its own, are those of the text between the ends of the part, and
in a row the parts have the macros of the text.
-/
theorem splitOutside_agrees (sep : Char) (cs : List Char) :
    joinWith [sep] (splitOutside sep cs) = cs ∧
      (∀ i, IsCut sep cs i ↔ cs[i]? = some sep ∧ Outside cs i) ∧
      (∀ before part after, splitOutside sep cs = before ++ part :: after →
        (stretches part).map (Stretch.after (partStart before)) =
          (stretches cs).filter (Stretch.within (partStart before) (partStart before + part.length))) ∧
      ((splitOutside sep cs).flatMap fun part => (tokenize part).filterMap Token.span?) =
        (tokenize cs).filterMap Token.span? :=
  ⟨joinWith_splitOutside sep cs, fun _ => isCut_iff, fun _ _ _ h => stretches_splitOutside h,
    flatMap_span?_splitOutside sep cs⟩

/-- A span with a separator and the other marker in it, and two markers that are not closed on their lines. -/
theorem splitOutside_agrees_unclosed :
    let cs := "#b~$c#~d$~\ne$~f".toList
    splitOutside '~' cs = ["#b~$c#".toList, "d$".toList, "\ne$".toList, "f".toList] ∧
      IsCut '~' cs 9 ∧ ¬ IsCut '~' cs 2 ∧
        (stretches "d$".toList).map (Stretch.after 7) = (stretches cs).filter (Stretch.within 7 9) := by
  intro cs
  have hsplit : splitOutside '~' cs = ["#b~$c#".toList, "d$".toList, "\ne$".toList, "f".toList] := by
    decide +kernel
  obtain ⟨-, hcut, hstretches, -⟩ := splitOutside_agrees '~' cs
  exact ⟨hsplit, (hcut 9).2 (by decide +kernel), fun h => absurd ((hcut 2).1 h) (by decide +kernel),
    hstretches ["#b~$c#".toList] "d$".toList ["\ne$".toList, "f".toList] hsplit⟩

end SheetFill.Cell
