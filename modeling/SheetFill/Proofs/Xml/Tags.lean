import SheetFill.Text.Cut
import SheetFill.Xml.Element

/-!
# Tags, and the texts between them

An escaped text has no angle brackets and no quotes in it. So a closing bracket always ends a tag, an opening
one starts a tag, and the quotes in a tag stand around the values of its attributes. A document is cut at the
closing brackets into *tokens*, each of which is a tag with the text before it, and a tag is cut at its quotes
into names and values. No text and no value can be taken for anything else.

Names are not escaped. They have letters, digits and hyphens only.

## Main definitions

* `unescape?` — undoes the escapes.
* `Tag`, `Token` — tags, and tags with the texts before them.
* `Tag.read?`, `tokens?` — what is read from characters.

## Main results

* `unescape?_escaped` — an escaped text is read back.
* `Tag.WellFormed.read?_chars` — a tag is read back.
* `tokens?_chars` — the tokens of a text are read back.
-/

namespace SheetFill.Xml

open Text

/-! ## Escapes -/

/-- The text of which this is the escaped form. -/
def unescape? : List Char → Option (List Char)
  | [] => some []
  | '&' :: 'l' :: 't' :: ';' :: cs => (unescape? cs).map ('<' :: ·)
  | '&' :: 'g' :: 't' :: ';' :: cs => (unescape? cs).map ('>' :: ·)
  | '&' :: 'a' :: 'm' :: 'p' :: ';' :: cs => (unescape? cs).map ('&' :: ·)
  | '&' :: 'a' :: 'p' :: 'o' :: 's' :: ';' :: cs => (unescape? cs).map ('\'' :: ·)
  | '&' :: 'q' :: 'u' :: 'o' :: 't' :: ';' :: cs => (unescape? cs).map ('"' :: ·)
  | '&' :: _ => none
  | c :: cs => (unescape? cs).map (c :: ·)

theorem unescape?_cons {c : Char} (h : c ≠ '&') (cs : List Char) :
    unescape? (c :: cs) = (unescape? cs).map (c :: ·) := by
  rw [unescape?]
  all_goals simp [h]

/-- The brackets around tags. -/
def isBracket (c : Char) : Bool := c == '<' || c == '>'

/-- The characters that tell tags from texts, and attribute values from their names. -/
def isMarkup (c : Char) : Bool := isBracket c || c == '"'

/-- The characters that are escaped, each with its escape. -/
def escapes : List (Char × List Char) :=
  [('<', "&lt;".toList), ('>', "&gt;".toList), ('&', "&amp;".toList), ('\'', "&apos;".toList),
    ('"', "&quot;".toList)]

/-- A character is escaped, or it is neither markup nor the start of an escape. -/
theorem escape_cases (c : Char) :
    (c, escape c) ∈ escapes ∨ (isMarkup c = false ∧ c ≠ '&' ∧ escape c = [c]) := by
  by_cases hescaped : c ∈ escapes.map Prod.fst
  · refine .inl ?_
    have hc : c = '<' ∨ c = '>' ∨ c = '&' ∨ c = '\'' ∨ c = '"' := by simpa [escapes] using hescaped
    rcases hc with rfl | rfl | rfl | rfl | rfl
    all_goals decide
  · refine .inr ?_
    obtain ⟨hlt, hgt, hamp, hapos, hquot⟩ :
        c ≠ '<' ∧ c ≠ '>' ∧ c ≠ '&' ∧ c ≠ '\'' ∧ c ≠ '"' := by simpa [escapes] using hescaped
    have hplain : isMarkup c = false := by simp [isMarkup, isBracket, hlt, hgt, hquot]
    exact ⟨hplain, hamp, by simp [escape, hlt, hgt, hamp, hapos, hquot]⟩

/-- An escaped character is read back, whatever comes after it. -/
theorem unescape?_escape (c : Char) (cs : List Char) :
    unescape? (escape c ++ cs) = (unescape? cs).map (c :: ·) := by
  rcases escape_cases c with hmem | ⟨-, hamp, hc⟩
  · simp only [escapes, List.mem_cons, Prod.mk.injEq, List.not_mem_nil, or_false] at hmem
    rcases hmem with ⟨rfl, -⟩ | ⟨rfl, -⟩ | ⟨rfl, -⟩ | ⟨rfl, -⟩ | ⟨rfl, -⟩
    all_goals rfl
  · rw [hc]
    exact unescape?_cons hamp cs

theorem unescape?_escaped (s : String) : unescape? (escaped s) = some s.toList := by
  rw [escaped]
  induction s.toList with
  | nil => rfl
  | cons c cs ih => rw [List.flatMap_cons, unescape?_escape, ih, Option.map_some]

/-- There is no markup in an escaped text. -/
theorem isMarkup_of_mem_escaped {s : String} {d : Char} (h : d ∈ escaped s) : isMarkup d = false := by
  obtain ⟨c, -, hd⟩ := List.mem_flatMap.1 h
  rcases escape_cases c with hescape | ⟨hplain, -, hself⟩
  · have hall : escapes.all (fun e => e.2.all fun d => !isMarkup d) = true := by decide
    have hone : (escape c).all (fun d => !isMarkup d) = true := List.all_eq_true.1 hall _ hescape
    simpa using List.all_eq_true.1 hone d hd
  · rw [hself, List.mem_singleton] at hd
    rw [hd, hplain]

/-- Texts without the brackets of tags. -/
def BracketFree (cs : List Char) : Prop := ∀ c ∈ cs, isBracket c = false

instance (cs : List Char) : Decidable (BracketFree cs) :=
  List.decidableBAll (fun c => isBracket c = false) cs

theorem BracketFree.not_mem {cs : List Char} (h : BracketFree cs) {c : Char}
    (hc : isBracket c = true) : c ∉ cs := by
  intro hmem
  rw [h c hmem] at hc
  exact Bool.noConfusion hc

theorem bracketFree_append {cs ds : List Char} :
    BracketFree (cs ++ ds) ↔ BracketFree cs ∧ BracketFree ds := List.forall_mem_append

theorem bracketFree_cons {c : Char} {cs : List Char} :
    BracketFree (c :: cs) ↔ isBracket c = false ∧ BracketFree cs := List.forall_mem_cons

theorem bracketFree_escaped (s : String) : BracketFree (escaped s) := by
  intro c hc
  have hmarkup := isMarkup_of_mem_escaped hc
  simp only [isMarkup, Bool.or_eq_false_iff] at hmarkup
  exact hmarkup.1

/-! ## Names -/

/-- The characters of names. -/
def isNameChar (c : Char) : Bool := c.isAlphanum || c == '-'

/-- A name of an element or an attribute. -/
def IsName (s : String) : Prop := s.toList ≠ [] ∧ s.toList.all isNameChar = true

instance (s : String) : Decidable (IsName s) :=
  inferInstanceAs (Decidable (s.toList ≠ [] ∧ s.toList.all isNameChar = true))

theorem IsName.isNameChar {s : String} (h : IsName s) {c : Char} (hc : c ∈ s.toList) :
    isNameChar c = true := List.all_eq_true.1 h.2 c hc

theorem IsName.not_mem {s : String} (h : IsName s) {c : Char} (hc : Xml.isNameChar c = false) :
    c ∉ s.toList := by
  intro hmem
  rw [h.isNameChar hmem] at hc
  exact Bool.noConfusion hc

theorem IsName.bracketFree {s : String} (h : IsName s) : BracketFree s.toList := by
  intro c hc
  cases hbracket : isBracket c with
  | false => rfl
  | true =>
      simp only [isBracket, Bool.or_eq_true, beq_iff_eq] at hbracket
      rcases hbracket with rfl | rfl
      · exact absurd hc (h.not_mem (by decide))
      · exact absurd hc (h.not_mem (by decide))

/-! ## Attributes -/

/-- The name in what stands before the value of an attribute. -/
def attributeName? : List Char → Option String
  | ' ' :: cs =>
    match cut '=' cs with
    | [name, []] => some (String.ofList name)
    | _ => none
  | _ => none

/-- The attributes of a tag that was cut at its quotes, and what comes after them. -/
def readAttributes? : List (List Char) → Option (List Attribute × List Char)
  | [] => none
  | [close] => some ([], close)
  | label :: value :: pieces => do
    let name ← attributeName? label
    let value ← unescape? value
    let (attributes, close) ← readAttributes? pieces
    return (⟨name, String.ofList value⟩ :: attributes, close)

theorem IsName.attributeName?_eq {name : String} (h : IsName name) :
    attributeName? (' ' :: (name.toList ++ ['='])) = some name := by
  have hcut : cut '=' (name.toList ++ ['=']) = [name.toList, []] :=
    cut_append (h.not_mem (by decide)) []
  rw [attributeName?, hcut]
  exact congrArg some String.ofList_toList

/-- An attribute is cut at the quotes around its value. -/
theorem cut_attribute {a : Attribute} (h : IsName a.name) (rest : List Char) :
    cut '"' (a.chars ++ rest) = (' ' :: (a.name.toList ++ ['='])) :: escaped a.value :: cut '"' rest := by
  have hlabel : '"' ∉ ' ' :: (a.name.toList ++ ['=']) := by
    have hname : '"' ∉ a.name.toList := h.not_mem (by decide)
    simpa using hname
  have hchars : a.chars ++ rest =
      (' ' :: (a.name.toList ++ ['='])) ++ '"' :: (escaped a.value ++ '"' :: rest) := by
    simp [Attribute.chars]
  have hvalue : '"' ∉ escaped a.value := fun hmem => Bool.noConfusion (isMarkup_of_mem_escaped hmem)
  rw [hchars, cut_append hlabel, cut_append hvalue]

theorem bracketFree_attribute {a : Attribute} (h : IsName a.name) : BracketFree a.chars := by
  simp only [Attribute.chars, bracketFree_cons, bracketFree_append]
  exact ⟨rfl, h.bracketFree, rfl, rfl, bracketFree_escaped a.value, rfl, nofun⟩

/-- The attributes of a tag are read back. -/
theorem readAttributes?_chars {attributes : List Attribute} (h : ∀ a ∈ attributes, IsName a.name)
    {close : List Char} (hclose : '"' ∉ close) :
    readAttributes? (cut '"' (attributes.flatMap Attribute.chars ++ close)) =
      some (attributes, close) := by
  induction attributes with
  | nil => rw [List.flatMap_nil, List.nil_append, cut_of_not_mem hclose, readAttributes?]
  | cons a attributes ih =>
      obtain ⟨ha, hattributes⟩ := List.forall_mem_cons.1 h
      rw [List.flatMap_cons, List.append_assoc, cut_attribute ha, readAttributes?,
        ha.attributeName?_eq, unescape?_escaped, ih hattributes]
      simp

/-! ## Tags -/

/-- What stands between angle brackets. -/
inductive Tag where
  /-- A declaration, as it stands after its question mark. -/
  | declaration (body : List Char)
  /-- The start of an element, which may be the whole element. -/
  | start (name : String) (attributes : List Attribute) (whole : Bool)
  | finish (name : String)
  deriving DecidableEq, Repr

namespace Tag

/-- What a tag ends in that is a whole element. -/
def close (whole : Bool) : List Char := if whole then ['/'] else []

/-- The characters of a tag, without the brackets. -/
def chars : Tag → List Char
  | .declaration body => '?' :: body
  | .start name attributes whole =>
    name.toList ++ (attributes.flatMap Attribute.chars ++ close whole)
  | .finish name => '/' :: name.toList

/-- Reads what stands between angle brackets. -/
def read? (cs : List Char) : Option Tag :=
  if cs.head? = some '?' then some (.declaration cs.tail)
  else if cs.head? = some '/' then some (.finish (String.ofList cs.tail))
  else do
    let (attributes, rest) ← readAttributes? (cut '"' (cs.dropWhile isNameChar))
    let name := String.ofList (cs.takeWhile isNameChar)
    if rest = close false then some (.start name attributes false)
    else if rest = close true then some (.start name attributes true)
    else none

/-- The names of a tag are names, and a declaration has no brackets in it. -/
inductive WellFormed : Tag → Prop
  | declaration {body : List Char} (hbody : ∀ c ∈ body, isBracket c = false) :
      WellFormed (.declaration body)
  | start {name : String} {attributes : List Attribute} (hname : IsName name)
      (hattributes : ∀ a ∈ attributes, IsName a.name) (whole : Bool) :
      WellFormed (.start name attributes whole)
  | finish {name : String} (hname : IsName name) : WellFormed (.finish name)

/-- The name of a tag ends before the attributes, or before the end of the tag. -/
theorem not_isNameChar_of_head? {attributes : List Attribute} {whole : Bool} {c : Char}
    (h : (attributes.flatMap Attribute.chars ++ close whole).head? = some c) : isNameChar c = false := by
  cases attributes with
  | nil =>
      cases whole with
      | false => cases h
      | true =>
          obtain rfl : '/' = c := by simpa [close] using h
          rfl
  | cons a attributes =>
      obtain rfl : ' ' = c := by simpa [Attribute.chars] using h
      rfl

/-- The first characters of a tag, up to the end of its name. -/
theorem span_name {name : String} (hname : IsName name) {rest : List Char}
    (hrest : ∀ c, rest.head? = some c → isNameChar c = false) :
    (name.toList ++ rest).takeWhile isNameChar = name.toList ∧
      (name.toList ++ rest).dropWhile isNameChar = rest := by
  rw [List.takeWhile_append_of_pos fun c => hname.isNameChar,
    List.dropWhile_append_of_pos fun c => hname.isNameChar]
  cases rest with
  | nil => simp
  | cons c rest => simp [hrest c rfl]

/-- A tag is read back. -/
theorem WellFormed.read?_chars {t : Tag} (h : t.WellFormed) : read? t.chars = some t := by
  cases h with
  | declaration => rfl
  | @start name attributes hname hattributes whole =>
      obtain ⟨c, cs, hcs⟩ := List.exists_cons_of_ne_nil hname.1
      have hhead {d : Char} (hd : isNameChar d = false) :
          (chars (.start name attributes whole)).head? ≠ some d := by
        rw [chars, hcs]
        rintro ⟨⟩
        exact hname.not_mem hd (hcs ▸ List.mem_cons_self)
      obtain ⟨htake, hdrop⟩ := span_name hname fun c => not_isNameChar_of_head?
      have hclose : '"' ∉ close whole := by
        cases whole with
        | false => decide
        | true => decide
      rw [read?, if_neg (hhead (by decide)), if_neg (hhead (by decide)), chars, htake, hdrop,
        readAttributes?_chars hattributes hclose, String.ofList_toList]
      cases whole with
      | false => rfl
      | true => rfl
  | @finish name hname =>
      have hread : read? ('/' :: name.toList) = some (.finish (String.ofList name.toList)) := rfl
      rw [chars, hread, String.ofList_toList]

/-- There are no brackets between the brackets of a tag. -/
theorem WellFormed.bracketFree {t : Tag} (h : t.WellFormed) : BracketFree t.chars := by
  cases h with
  | declaration hbody => exact bracketFree_cons.2 ⟨rfl, hbody⟩
  | @start name attributes hname hattributes whole =>
      have hclose : BracketFree (close whole) := by
        cases whole with
        | false => exact List.forall_mem_nil _
        | true => exact bracketFree_cons.2 ⟨rfl, List.forall_mem_nil _⟩
      have hchars : BracketFree (attributes.flatMap Attribute.chars) := by
        intro c hc
        obtain ⟨a, ha, hca⟩ := List.mem_flatMap.1 hc
        exact bracketFree_attribute (hattributes a ha) c hca
      simp only [chars, bracketFree_append]
      exact ⟨hname.bracketFree, hchars, hclose⟩
  | finish hname => exact bracketFree_cons.2 ⟨rfl, hname.bracketFree⟩

end Tag

/-! ## Tokens -/

/-- A tag, and the text between it and the tag before. -/
structure Token where
  before : List Char
  tag : Tag
  deriving DecidableEq, Repr

namespace Token

/-- The text, and the tag in its brackets. -/
def chars (t : Token) : List Char := t.before ++ '<' :: (t.tag.chars ++ ['>'])

/-- Reads what stands before a closing bracket. -/
def read? (piece : List Char) : Option Token :=
  match cut '<' piece with
  | [before, tag] => (Tag.read? tag).map (Token.mk before)
  | _ => none

/-- The tag is well formed, and the text before it has no brackets. -/
structure WellFormed (t : Token) : Prop where
  before : BracketFree t.before
  tag : t.tag.WellFormed

/-- No tag closes before the one of the token. -/
theorem WellFormed.not_mem_piece {t : Token} (h : t.WellFormed) :
    '>' ∉ t.before ++ '<' :: t.tag.chars := by
  have hbefore : '>' ∉ t.before := h.before.not_mem rfl
  have htag : '>' ∉ t.tag.chars := h.tag.bracketFree.not_mem rfl
  simp [hbefore, htag]

/-- A token is read back from what stands before its closing bracket. -/
theorem WellFormed.read?_eq {t : Token} (h : t.WellFormed) :
    read? (t.before ++ '<' :: t.tag.chars) = some t := by
  have hcut : cut '<' (t.before ++ '<' :: t.tag.chars) = [t.before, t.tag.chars] := by
    rw [cut_append (h.before.not_mem rfl), cut_of_not_mem (h.tag.bracketFree.not_mem rfl)]
  simp only [read?, hcut, h.tag.read?_chars, Option.map_some]

end Token

/-- Blanks and line ends only. -/
def isSpacing (cs : List Char) : Bool := cs.all Char.isWhitespace

/-- The tokens of a text that was cut at the closing brackets; there is no text after the last tag. -/
def readTokens? : List (List Char) → Option (List Token)
  | [] => none
  | [after] => if isSpacing after then some [] else none
  | piece :: pieces => do
    let t ← Token.read? piece
    let ts ← readTokens? pieces
    return t :: ts

/-- The tokens of a text. -/
def tokens? (cs : List Char) : Option (List Token) := readTokens? (cut '>' cs)

/-- The first of the pieces of a text is one token, if there are more of them. -/
theorem readTokens?_cons (piece : List Char) {pieces : List (List Char)} (h : pieces ≠ []) :
    readTokens? (piece :: pieces) = (Token.read? piece).bind fun t =>
      (readTokens? pieces).map (t :: ·) := by
  cases pieces with
  | nil => exact absurd rfl h
  | cons next pieces =>
      rw [readTokens?]
      · cases Token.read? piece with
        | none => rfl
        | some t =>
            cases readTokens? (next :: pieces) with
            | none => rfl
            | some ts => rfl
      · exact List.cons_ne_nil next pieces

/-- The tokens of a text are read back. -/
theorem tokens?_chars {ts : List Token} (h : ∀ t ∈ ts, t.WellFormed) {after : List Char}
    (hafter : isSpacing after = true) :
    tokens? (ts.flatMap Token.chars ++ after) = some ts := by
  induction ts with
  | nil =>
      have hbracket : '>' ∉ after := fun hmem =>
        Bool.noConfusion (List.all_eq_true.1 hafter _ hmem)
      simp [tokens?, cut_of_not_mem hbracket, readTokens?, hafter]
  | cons t ts ih =>
      obtain ⟨ht, hts⟩ := List.forall_mem_cons.1 h
      have hchars : (t :: ts).flatMap Token.chars ++ after =
          (t.before ++ '<' :: t.tag.chars) ++ '>' :: (ts.flatMap Token.chars ++ after) := by
        simp [Token.chars]
      rw [hchars, tokens?, cut_append ht.not_mem_piece, readTokens?_cons _ (cut_ne_nil _ _), ht.read?_eq,
        Option.bind_some, ← tokens?, ih hts, Option.map_some]

/-! ## End tags -/

/-- Cut at the closing brackets, tokens come apart. -/
theorem cut_flatMap_chars {ts : List Token} (h : ∀ t ∈ ts, t.WellFormed) :
    cut '>' (ts.flatMap Token.chars) = ts.map (fun t => t.before ++ '<' :: t.tag.chars) ++ [[]] := by
  induction ts with
  | nil => rfl
  | cons t ts ih =>
      obtain ⟨ht, hts⟩ := List.forall_mem_cons.1 h
      have hchars : (t :: ts).flatMap Token.chars =
          (t.before ++ '<' :: t.tag.chars) ++ '>' :: ts.flatMap Token.chars := by
        simp [Token.chars]
      rw [hchars, cut_append ht.not_mem_piece, ih hts, List.map_cons, List.cons_append]

/-- An end tag in the text of tokens is the tag of one of them. -/
theorem exists_finish_of_infix {ts : List Token} (h : ∀ t ∈ ts, t.WellFormed) {name : String}
    (hname : IsName name) (hwithin : endTag name <:+: ts.flatMap Token.chars) :
    ∃ t ∈ ts, t.tag = .finish name := by
  obtain ⟨front, back, htext⟩ := hwithin
  have hslash {c : Char} (hc : isNameChar c = false) (hne : c ≠ '/') : c ∉ '/' :: name.toList := by
    rw [List.mem_cons, not_or]
    exact ⟨hne, hname.not_mem hc⟩
  have hbracket : '>' ∉ '<' :: '/' :: name.toList := by
    rw [List.mem_cons, not_or]
    exact ⟨by decide, hslash (by decide) (by decide)⟩
  -- the tag ends one of the pieces between closing brackets, and so one of the tokens
  have hcut := cut_flatMap_chars h
  rw [← htext, show front ++ endTag name ++ back =
    (front ++ '<' :: '/' :: name.toList) ++ '>' :: back by simp [endTag], cut_append_cut] at hcut
  obtain ⟨start, hstart⟩ := exists_append_mem_cut hbracket front
  have hpiece := List.mem_append_left (cut '>' back) hstart
  rw [hcut, List.mem_append, List.mem_map] at hpiece
  rcases hpiece with ⟨t, ht, hpiece⟩ | hempty
  · refine ⟨t, ht, ?_⟩
    have hparts := congrArg (cut '<') hpiece
    rw [cut_append ((h t ht).before.not_mem rfl), cut_of_not_mem ((h t ht).tag.bracketFree.not_mem rfl),
      cut_append_cut, cut_of_not_mem (hslash (by decide) (by decide))] at hparts
    have hlast := congrArg List.getLast? hparts
    rw [List.getLast?_concat, List.getLast?_cons_cons, List.getLast?_singleton] at hlast
    have hread := (h t ht).tag.read?_chars
    rw [Option.some.inj hlast] at hread
    have hfinish : Tag.read? ('/' :: name.toList) = some (.finish (String.ofList name.toList)) := rfl
    rw [hfinish, String.ofList_toList] at hread
    exact (Option.some.inj hread).symm
  · rw [List.mem_singleton] at hempty
    simp at hempty

end SheetFill.Xml
