import Mathlib.Data.List.Chain
import Mathlib.Data.List.Forall2
import SheetFill.Proofs.Cell.Faults

/-!
# The one reading of a cell text

The tokens of a text spell it, literal stretches are as long as they can be, no span has its own marker or a
line break in it, and a marker that is literal text is not followed by the same one on its line. There is no
other way to read a text like this: the first token decides whether the marker in front opens a span, and if
so where the span ends, and the rest of the text is read in the same way.

So nothing is lost between a text and its cell body. When every reference is given the text of its own span
for a value, the body gives the text back.

## Main definitions

* `IsScan` — what makes pieces the scan of the text that they spell.
* `IsReading` — what makes tokens a reading of a text.
* `spans`, `spanText` — the spans of a text, and how one is written.

## Main results

* `isReading_tokenize`, `IsReading.eq_tokenize` — there is one reading, and no other.
* `Body.fill_spans` — a body with its own spans for values.
* `tokenize_unique` — both together.
-/

namespace SheetFill.Cell

/-! ## Up to the end of the line -/

/-- The characters before the next line break. -/
def restOfLine (cs : List Char) : List Char := cs.takeWhile (· != '\n')

theorem Mode.marker_ne_newline (mode : Mode) : mode.marker ≠ '\n' := by
  cases mode <;> decide

theorem restOfLine_cons {d : Char} (h : d ≠ '\n') (ds : List Char) :
    restOfLine (d :: ds) = d :: restOfLine ds :=
  List.takeWhile_cons_of_pos (by simpa using h)

/-- There is no closing marker just if none is on the line. -/
theorem untilMarker_eq_none_iff {c : Char} (hc : c ≠ '\n') (cs : List Char) :
    untilMarker c cs = none ↔ c ∉ restOfLine cs := by
  induction cs with
  | nil => simp [untilMarker, restOfLine]
  | cons d ds ih =>
      by_cases hd : d = c
      · rw [restOfLine_cons (hd ▸ hc)]
        simp [untilMarker, hd]
      · by_cases hline : d = '\n'
        · simp [untilMarker, restOfLine, hline, Ne.symm hc]
        · rw [restOfLine_cons hline, List.mem_cons, not_or, untilMarker, if_neg hd, if_neg hline, ← ih]
          cases untilMarker c ds with
          | none => simp [Ne.symm hd]
          | some found => simp

theorem untilMarker_append {c : Char} {body : List Char} (hbody : c ∉ body) (hline : '\n' ∉ body)
    (rest : List Char) : untilMarker c (body ++ c :: rest) = some (body, rest) := by
  induction body with
  | nil => simp [untilMarker]
  | cons d ds ih =>
      rw [List.mem_cons, not_or] at hbody hline
      rw [List.cons_append, untilMarker, if_neg (Ne.symm hbody.1), if_neg (Ne.symm hline.1),
        ih hbody.2 hline.2]

/-- What stands before the closing marker has neither the marker nor a line break in it. -/
theorem not_mem_of_untilMarker {c : Char} {cs body rest : List Char}
    (h : untilMarker c cs = some (body, rest)) : c ∉ body ∧ '\n' ∉ body := by
  induction cs generalizing body with
  | nil => cases h
  | cons d ds ih =>
      rw [untilMarker] at h
      split at h
      · cases h
        exact ⟨List.not_mem_nil, List.not_mem_nil⟩
      · next hd =>
          split at h
          · cases h
          · next hline =>
              split at h
              · cases h
              · next hds =>
                  cases h
                  obtain ⟨hbody, hbreak⟩ := ih hds
                  exact ⟨List.not_mem_cons_of_ne_of_not_mem (Ne.symm hd) hbody,
                    List.not_mem_cons_of_ne_of_not_mem (Ne.symm hline) hbreak⟩

/-! ## The first piece of a text -/

/-- A marker that is closed on its line begins a span. -/
theorem scan_span {mode : Mode} {body : List Char} (hbody : mode.marker ∉ body) (hline : '\n' ∉ body)
    (rest : List Char) :
    scan (mode.marker :: (body ++ mode.marker :: rest)) = .span mode body :: scan rest := by
  have hmode : Mode.ofChar? mode.marker = some mode := Mode.ofChar?_eq_some_iff.2 rfl
  rw [scan]
  split
  · next hnone =>
      rw [hmode] at hnone
      cases hnone
  · next mode' hsome =>
      obtain rfl : mode = mode' := Option.some.inj (hmode.symm.trans hsome)
      have hclosed := untilMarker_append hbody hline rest
      split
      · next hopen =>
          rw [hclosed] at hopen
          cases hopen
      · next hfound =>
          rw [hclosed] at hfound
          cases hfound
          rfl

/-- Any other character is a literal piece. -/
theorem scan_literal {c : Char} {cs : List Char}
    (h : ∀ mode : Mode, c = mode.marker → mode.marker ∉ restOfLine cs) :
    scan (c :: cs) = .literal c :: scan cs := by
  rw [scan]
  split
  · rfl
  · next mode hmode =>
      have hc : c = mode.marker := Mode.ofChar?_eq_some_iff.1 hmode
      have hopen : untilMarker c cs = none := by
        rw [untilMarker_eq_none_iff (hc ▸ mode.marker_ne_newline), hc]
        exact h mode hc
      split
      · rfl
      · next hfound =>
          rw [hopen] at hfound
          cases hfound

/-! ## Scanned pieces -/

/-- The pieces that scans give: a span ends at the first marker and on its line, a literal marker is not closed. -/
inductive IsScan : List Piece → Prop
  | nil : IsScan []
  | literal {c : Char} {pieces : List Piece} (rest : IsScan pieces)
      (unclosed : ∀ mode : Mode, c = mode.marker → mode.marker ∉ restOfLine (pieces.flatMap Piece.chars)) :
      IsScan (.literal c :: pieces)
  | span {mode : Mode} {body : List Char} {pieces : List Piece} (rest : IsScan pieces)
      (closed : mode.marker ∉ body) (line : '\n' ∉ body) : IsScan (.span mode body :: pieces)

theorem isScan_scan (cs : List Char) : IsScan (scan cs) := by
  fun_induction scan cs with
  | case1 => exact .nil
  | case2 c cs hnone ih =>
      refine .literal ih fun mode hc => ?_
      rw [Mode.ofChar?_eq_some_iff.2 hc] at hnone
      cases hnone
  | case3 c cs mode hmode hopen ih =>
      refine .literal ih fun mode' hc => ?_
      rw [scan_chars, ← untilMarker_eq_none_iff mode'.marker_ne_newline, ← hc]
      exact hopen
  | case4 c cs mode hmode body rest hfound ih =>
      obtain ⟨hbody, hline⟩ := not_mem_of_untilMarker hfound
      obtain rfl : c = mode.marker := Mode.ofChar?_eq_some_iff.1 hmode
      exact .span ih hbody hline

theorem flatMap_chars_span (mode : Mode) (body : List Char) (pieces : List Piece) :
    (Piece.span mode body :: pieces).flatMap Piece.chars =
      mode.marker :: (body ++ mode.marker :: pieces.flatMap Piece.chars) := by
  simp [Piece.chars]

namespace IsScan

/-- Such pieces are the scan of the text that they spell. -/
theorem scan_eq {pieces : List Piece} (h : IsScan pieces) : scan (pieces.flatMap Piece.chars) = pieces := by
  induction h with
  | nil =>
      rw [List.flatMap_nil, scan]
  | literal _ hopen ih =>
      rw [List.flatMap_cons, Piece.chars, List.singleton_append, scan_literal hopen, ih]
  | span _ hclosed hline ih => rw [flatMap_chars_span, scan_span hclosed hline, ih]

end IsScan

/-! ## Tokens -/

theorem tokenize_span {mode : Mode} {body : List Char} (hbody : mode.marker ∉ body) (hline : '\n' ∉ body)
    (rest : List Char) :
    tokenize (mode.marker :: (body ++ mode.marker :: rest)) = .reference mode body :: tokenize rest := by
  rw [tokenize, scan_span hbody hline]
  rfl

/-- A literal character joins the text that follows it. -/
theorem tokenize_literal {c : Char} {cs : List Char}
    (h : ∀ mode : Mode, c = mode.marker → mode.marker ∉ restOfLine cs) :
    tokenize (c :: cs) = Token.addPiece (.literal c) (tokenize cs) := by
  rw [tokenize, scan_literal h]
  rfl

theorem tokenize_nil : tokenize [] = [] := by
  rw [tokenize, scan]
  rfl

/-! ## Readings -/

/-- Is the token literal text? -/
def Token.isText : Token → Bool
  | .text _ => true
  | .reference _ _ => false

/-- No marker in a text is followed by the same one on its line, if `rest` comes after the text. -/
def Unclosed (chars rest : List Char) : Prop :=
  ∀ cs (mode : Mode) ds, chars = cs ++ mode.marker :: ds → mode.marker ∉ restOfLine (ds ++ rest)

theorem unclosed_nil (rest : List Char) : Unclosed [] rest := by
  intro cs mode ds h
  have hlength := congrArg List.length h
  simp at hlength

theorem unclosed_cons_iff {c : Char} {chars rest : List Char} : Unclosed (c :: chars) rest ↔
    (∀ mode : Mode, c = mode.marker → mode.marker ∉ restOfLine (chars ++ rest)) ∧ Unclosed chars rest := by
  constructor
  · intro h
    exact ⟨fun mode hc => h [] mode chars (by rw [hc]; rfl),
      fun cs mode ds heq => h (c :: cs) mode ds (by rw [heq]; rfl)⟩
  · rintro ⟨hc, hchars⟩ cs mode ds heq
    cases cs with
    | nil =>
        obtain ⟨hmarker, rfl⟩ := List.cons.inj heq
        exact hc mode hmarker
    | cons d cs => exact hchars cs mode ds (List.cons.inj heq).2

/-- The tokens spell the text, stretches of literal text are whole, and spans are where markers are closed. -/
structure IsReading (text : List Char) (tokens : List Token) : Prop where
  spelled : tokens.flatMap Token.chars = text
  nonempty : .text [] ∉ tokens
  separated : tokens.IsChain fun a b => ¬ (a.isText = true ∧ b.isText = true)
  /-- A span ends at the first marker, and on its line. -/
  closed : ∀ mode body, .reference mode body ∈ tokens → mode.marker ∉ body ∧ '\n' ∉ body
  unclosed : ∀ front chars back, tokens = front ++ .text chars :: back →
    Unclosed chars (back.flatMap Token.chars)

namespace IsReading

theorem nil : IsReading [] [] where
  spelled := rfl
  nonempty := List.not_mem_nil
  separated := .nil
  closed := nofun
  unclosed := fun front chars back h => by
    have hlength := congrArg List.length h
    simp at hlength

/-- One more token in front. -/
theorem cons {rest : List Char} {tokens : List Token} (h : IsReading rest tokens) {t : Token}
    (hne : t ≠ .text []) (hhead : ∀ u ∈ tokens.head?, ¬ (t.isText = true ∧ u.isText = true))
    (hclosed : ∀ mode body, t = .reference mode body → mode.marker ∉ body ∧ '\n' ∉ body)
    (hopen : ∀ chars, t = .text chars → Unclosed chars rest) :
    IsReading (t.chars ++ rest) (t :: tokens) where
  spelled := by rw [List.flatMap_cons, h.spelled]
  nonempty := fun hmem => by
    rcases List.mem_cons.1 hmem with heq | hmem
    · exact hne heq.symm
    · exact h.nonempty hmem
  separated := List.isChain_cons.2 ⟨hhead, h.separated⟩
  closed := fun mode body hmem => by
    rcases List.mem_cons.1 hmem with heq | hmem
    · exact hclosed mode body heq.symm
    · exact h.closed mode body hmem
  unclosed := fun front chars back heq => by
    cases front with
    | nil =>
        obtain ⟨htext, rfl⟩ := List.cons.inj heq
        rw [h.spelled]
        exact hopen chars htext
    | cons u front => exact h.unclosed front chars back (List.cons.inj heq).2

/-- The tokens after the first one read the rest of the text. -/
theorem tail {text : List Char} {t : Token} {tokens : List Token} (h : IsReading text (t :: tokens)) :
    IsReading (tokens.flatMap Token.chars) tokens where
  spelled := rfl
  nonempty := fun hmem => h.nonempty (List.mem_cons_of_mem _ hmem)
  separated := h.separated.tail
  closed := fun mode body hmem => h.closed mode body (List.mem_cons_of_mem _ hmem)
  unclosed := fun front chars back heq => h.unclosed (t :: front) chars back (by rw [heq]; rfl)

/-- A span before a text that is read. -/
theorem reference {rest : List Char} {tokens : List Token} (h : IsReading rest tokens) {mode : Mode}
    {body : List Char} (hbody : mode.marker ∉ body) (hline : '\n' ∉ body) :
    IsReading (mode.marker :: (body ++ mode.marker :: rest)) (.reference mode body :: tokens) := by
  have hcons : IsReading ((Token.reference mode body).chars ++ rest) (.reference mode body :: tokens) := by
    refine h.cons nofun (fun u _ hboth => Bool.false_ne_true hboth.1) (fun mode' body' heq => ?_) nofun
    cases heq
    exact ⟨hbody, hline⟩
  simpa [Token.chars] using hcons

/-- Literal text before a text that is read and begins with a span, if with anything. -/
theorem text {rest : List Char} {tokens : List Token} (h : IsReading rest tokens) {chars : List Char}
    (hne : chars ≠ []) (hhead : ∀ u ∈ tokens.head?, u.isText = false) (hopen : Unclosed chars rest) :
    IsReading (chars ++ rest) (.text chars :: tokens) := by
  refine h.cons (fun heq => hne (Token.text.inj heq)) (fun u hu hboth => ?_) nofun fun chars' heq => ?_
  · rw [hhead u hu] at hboth
    exact Bool.false_ne_true hboth.2
  · cases heq
    exact hopen

theorem head_of_text {text chars : List Char} {tokens : List Token}
    (h : IsReading text (.text chars :: tokens)) : ∀ u ∈ tokens.head?, u.isText = false := by
  intro u hu
  have hapart := (List.isChain_cons.1 h.separated).1 u hu
  exact Bool.eq_false_iff.2 fun htext => hapart ⟨rfl, htext⟩

theorem unclosed_of_text {text chars : List Char} {tokens : List Token}
    (h : IsReading text (.text chars :: tokens)) : Unclosed chars (tokens.flatMap Token.chars) :=
  h.unclosed [] chars tokens rfl

/-- A character that is no closed marker, before a text that is read. -/
theorem literal {cs : List Char} {tokens : List Token} (h : IsReading cs tokens) {c : Char}
    (hc : ∀ mode : Mode, c = mode.marker → mode.marker ∉ restOfLine cs) :
    IsReading (c :: cs) (Token.addPiece (.literal c) tokens) := by
  have hsingle : Unclosed [c] cs := unclosed_cons_iff.2 ⟨hc, unclosed_nil cs⟩
  cases tokens with
  | nil => exact h.text (List.cons_ne_nil c []) nofun hsingle
  | cons t tokens =>
      cases t with
      | text chars =>
          obtain rfl := h.spelled
          exact h.tail.text (List.cons_ne_nil c chars) h.head_of_text
            (unclosed_cons_iff.2 ⟨hc, h.unclosed_of_text⟩)
      | reference mode body =>
          refine h.text (List.cons_ne_nil c []) (fun u hu => ?_) hsingle
          cases hu
          rfl

/-- Tokens that read a text are its tokens. -/
theorem eq_tokenize {text : List Char} {tokens : List Token} (h : IsReading text tokens) :
    tokens = tokenize text := by
  induction tokens generalizing text with
  | nil =>
      obtain rfl : [] = text := h.spelled
      exact tokenize_nil.symm
  | cons t tokens ih =>
      have hrest : tokens = tokenize (tokens.flatMap Token.chars) := ih h.tail
      cases t with
      | reference mode body =>
          obtain ⟨hbody, hline⟩ := h.closed mode body List.mem_cons_self
          have htext : text = mode.marker :: (body ++ mode.marker :: tokens.flatMap Token.chars) := by
            rw [← h.spelled, List.flatMap_cons, Token.chars]
            simp
          rw [htext, tokenize_span hbody hline, ← hrest]
      | text chars =>
          -- one character after the other, up to the end of the stretch
          induction chars generalizing text with
          | nil => exact absurd List.mem_cons_self h.nonempty
          | cons c chars ihc =>
              obtain ⟨hc, hchars⟩ := unclosed_cons_iff.1 h.unclosed_of_text
              obtain rfl := h.spelled
              show _ = tokenize (c :: (chars ++ tokens.flatMap Token.chars))
              rw [tokenize_literal hc]
              cases chars with
              | nil =>
                  rw [List.nil_append, ← hrest]
                  cases tokens with
                  | nil => rfl
                  | cons next tokens =>
                      cases next with
                      | reference mode body => rfl
                      | text ds => cases h.head_of_text (.text ds) rfl
              | cons d ds =>
                  have hshorter := h.tail.text (List.cons_ne_nil d ds) h.head_of_text hchars
                  rw [← ihc hshorter]
                  rfl

end IsReading

/-- Tokens that are gathered from scanned pieces are a reading of what the pieces spell. -/
theorem IsScan.isReading {pieces : List Piece} (h : IsScan pieces) :
    IsReading (pieces.flatMap Piece.chars) (pieces.foldr Token.addPiece []) := by
  induction h with
  | nil => exact .nil
  | literal _ hopen ih => exact ih.literal hopen
  | span _ hclosed hline ih =>
      rw [flatMap_chars_span]
      exact ih.reference hclosed hline

/-- The tokens of a text are a reading of it. -/
theorem isReading_tokenize (text : List Char) : IsReading text (tokenize text) := by
  have h := (isScan_scan text).isReading
  rwa [scan_chars] at h

/-! ## Spans as values -/

/-- The mode and the body of a token that is a span. -/
def Token.span? : Token → Option (Mode × List Char)
  | .text _ => none
  | .reference mode body => some (mode, body)

/-- The spans of a text, in order. -/
def spans (text : String) : List (Mode × List Char) := (tokenize text.toList).filterMap Token.span?

/-- A span with its markers. -/
def spanText (span : Mode × List Char) : String := String.ofList (Token.reference span.1 span.2).chars

/-- The parts that are read from tokens, with the spans for values, spell what the tokens spell. -/
theorem fillParts_spans {tokens : List Token} {parts : List Part}
    (h : tokens.mapM Part.ofToken = .ok parts) :
    Body.fillParts parts ((tokens.filterMap Token.span?).map spanText) =
        String.ofList (tokens.flatMap Token.chars) ∧
      List.Forall₂ (fun span r => Reference.parse span.1 span.2 = .ok r) (tokens.filterMap Token.span?)
        (parts.filterMap Part.reference?) := by
  induction tokens generalizing parts with
  | nil =>
      cases h
      exact ⟨rfl, .nil⟩
  | cons t tokens ih =>
      rw [List.mapM_cons] at h
      obtain ⟨part, hpart, h⟩ := bind_eq_ok_iff.1 h
      obtain ⟨rest, hrest, h⟩ := bind_eq_ok_iff.1 h
      cases h
      obtain ⟨hfill, hparse⟩ := ih hrest
      cases t with
      | text chars =>
          cases hpart
          refine ⟨?_, hparse⟩
          show String.ofList chars ++
            Body.fillParts rest ((tokens.filterMap Token.span?).map spanText) = _
          rw [hfill, List.flatMap_cons, Token.chars, String.ofList_append]
      | reference mode body =>
          cases hr : Reference.parse mode body with
          | error e =>
              rw [Part.ofToken, hr] at hpart
              cases hpart
          | ok r =>
              rw [Part.ofToken, hr] at hpart
              cases hpart
              refine ⟨?_, .cons hr hparse⟩
              show spanText (mode, body) ++
                Body.fillParts rest ((tokens.filterMap Token.span?).map spanText) = _
              rw [hfill, List.flatMap_cons, String.ofList_append]
              rfl

/-- A body with its own spans for values is the text that it was read from. -/
theorem Body.fill_spans {text : String} {b : Body} (h : Body.parse text = .ok b) :
    List.Forall₂ (fun span r => Reference.parse span.1 span.2 = .ok r) (spans text) b.references ∧
      b.fill ((spans text).map spanText) = .ok text := by
  obtain ⟨parts, hparts, h⟩ := bind_eq_ok_iff.1 h
  cases h
  obtain ⟨hfill, hparse⟩ := fillParts_spans hparts
  rw [(isReading_tokenize text.toList).spelled, String.ofList_toList] at hfill
  have hlength : (spans text).length = (parts.filterMap Part.reference?).length := hparse.length_eq
  refine ⟨hparse, ?_⟩
  unfold Body.fill Body.references
  split
  · next hempty =>
      have hnone : spans text = [] := by
        rw [← List.length_eq_zero_iff, hlength, List.length_eq_zero_iff]
        exact List.isEmpty_iff.1 hempty
      rw [spans] at hnone
      rw [hnone] at hfill
      exact congrArg Except.ok hfill
  · rw [if_pos (by rw [List.length_map, hlength])]
    exact congrArg Except.ok hfill

/--
The tokens of a text are the only reading of it. If references can be read from all its spans, in their order,
then the body with the text of each span for its value is the text itself.
-/
theorem tokenize_unique (text : String) :
    (∀ tokens, IsReading text.toList tokens ↔ tokens = tokenize text.toList) ∧
      ∀ b, Body.parse text = .ok b →
        List.Forall₂ (fun span r => Reference.parse span.1 span.2 = .ok r) (spans text) b.references ∧
          b.fill ((spans text).map spanText) = .ok text := by
  refine ⟨fun tokens => ⟨fun h => h.eq_tokenize, ?_⟩, fun b h => Body.fill_spans h⟩
  rintro rfl
  exact isReading_tokenize text.toList

/-- A span with the other marker in it, and two markers that are not closed. -/
theorem tokenize_unique_unclosed :
    let text := "a#$x.y#$: #\n$b.c|#$"
    let b : Body := ⟨text, [.literal "a", .slot ⟨.group, "$x.y", ⟨"$x", "y"⟩, []⟩, .literal "$: #\n",
      .slot ⟨.plain, "b.c|#", ⟨"b", "c"⟩, [⟨"#", "."⟩]⟩]⟩
    Body.parse text = .ok b ∧ b.fill ["#$x.y#", "$b.c|#$"] = .ok text := by
  intro text b
  have hparse : Body.parse text = .ok b := by decide +kernel
  have hspans : (spans text).map spanText = ["#$x.y#", "$b.c|#$"] := by decide +kernel
  obtain ⟨-, hfill⟩ := (tokenize_unique text).2 b hparse
  rw [hspans] at hfill
  exact ⟨hparse, hfill⟩

end SheetFill.Cell
