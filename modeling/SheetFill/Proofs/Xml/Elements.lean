import SheetFill.Proofs.Xml.Tags

/-!
# Elements are read back

A reader goes through the tokens of a document and keeps a stack of the elements that were started and are
not finished. Line breaks and indentation between elements are passed over. In an element with a text nothing
is passed over: the text is all that stands between its tags. An empty text and no elements look alike but for
the indentation, so the reader is told which names are those of elements with texts.

## Main definitions

* `Element.tokens` — the tokens of an element.
* `Element.names` — the names of an element and of those inside it.
* `Element.Regular` — the names are names, and tell which elements have texts.
* `Reader.step`, `elements?` — one token, and all tokens of a document.

## Main results

* `Element.flatMap_tokens` — an element is written as its tokens are.
* `Element.mem_names_of_finish` — the end tags in an element are those of its names.
* `Reader.run_tokens` — the tokens of an element add it to those that were read.
* `elements?_chars` — the element of a document is read back.
-/

namespace SheetFill.Xml

/-! ## The tokens of an element -/

namespace Element

mutual

/-- The tokens of an element at an indentation level. -/
def tokens (level : Nat) : Element → List Token
  | .empty name attributes => [⟨lineStart level, .start name attributes true⟩]
  | .text name attributes content =>
    [⟨lineStart level, .start name attributes false⟩, ⟨escaped content, .finish name⟩]
  | .parent name attributes children =>
    ⟨lineStart level, .start name attributes false⟩ ::
      (listTokens (level + 1) children ++ [⟨lineStart level, .finish name⟩])

/-- The tokens of elements at an indentation level. -/
def listTokens (level : Nat) : List Element → List Token
  | [] => []
  | e :: rest => e.tokens level ++ listTokens level rest

end

mutual

/-- An element is written as its tokens are. -/
theorem flatMap_tokens (level : Nat) (e : Element) :
    (e.tokens level).flatMap Token.chars = e.chars level := by
  cases e with
  | empty name attributes => simp [tokens, chars, Token.chars, Tag.chars, Tag.close, tagStart]
  | text name attributes content =>
      simp [tokens, chars, Token.chars, Tag.chars, Tag.close, tagStart, endTag]
  | parent name attributes children =>
      simp [tokens, chars, Token.chars, Tag.chars, Tag.close, tagStart, endTag,
        flatMap_listTokens (level + 1) children]

theorem flatMap_listTokens (level : Nat) (es : List Element) :
    (listTokens level es).flatMap Token.chars = listChars level es := by
  match es with
  | [] => rfl
  | e :: rest =>
      rw [listTokens, List.flatMap_append, flatMap_tokens level e, flatMap_listTokens level rest,
        listChars]

end

/-! ## Elements that can be told from their tags -/

/-- Names are names, and they tell the elements with texts from those with elements. -/
inductive Regular (holdsText : String → Bool) : Element → Prop
  | empty {name : String} {attributes : List Attribute} (hname : IsName name)
      (hattributes : ∀ a ∈ attributes, IsName a.name) : Regular holdsText (.empty name attributes)
  | text {name : String} {attributes : List Attribute} (hname : IsName name)
      (hattributes : ∀ a ∈ attributes, IsName a.name) (hholds : holdsText name = true)
      (content : String) : Regular holdsText (.text name attributes content)
  | parent {name : String} {attributes : List Attribute} {children : List Element}
      (hname : IsName name) (hattributes : ∀ a ∈ attributes, IsName a.name)
      (hholds : holdsText name = false) (hchildren : ∀ e ∈ children, Regular holdsText e) :
      Regular holdsText (.parent name attributes children)

mutual

/-- The names of an element and of the elements inside it. -/
def names : Element → List String
  | .empty name _ => [name]
  | .text name _ _ => [name]
  | .parent name _ children => name :: listNames children

/-- The names of elements and of the elements inside them. -/
def listNames : List Element → List String
  | [] => []
  | e :: rest => e.names ++ listNames rest

end

theorem mem_listNames {name : String} {es : List Element} :
    name ∈ listNames es ↔ ∃ e ∈ es, name ∈ e.names := by
  induction es with
  | nil => simp [listNames]
  | cons e es ih => simp [listNames, ih]

mutual

/-- Elements end with their own names. -/
theorem mem_names_of_finish {level : Nat} {e : Element} {t : Token} {name : String}
    (ht : t ∈ e.tokens level) (htag : t.tag = .finish name) : name ∈ e.names := by
  match e with
  | .empty _ _ =>
      rw [tokens, List.mem_singleton] at ht
      subst ht
      cases htag
  | .text _ _ _ =>
      rw [tokens, List.mem_cons, List.mem_singleton] at ht
      rcases ht with rfl | rfl
      · cases htag
      · cases htag
        simp [names]
  | .parent _ _ children =>
      rw [tokens, List.mem_cons, List.mem_append, List.mem_singleton] at ht
      rcases ht with rfl | hchild | rfl
      · cases htag
      · exact List.mem_cons_of_mem _ (mem_listNames_of_finish hchild htag)
      · cases htag
        simp [names]

theorem mem_listNames_of_finish {level : Nat} {es : List Element} {t : Token} {name : String}
    (ht : t ∈ listTokens level es) (htag : t.tag = .finish name) : name ∈ listNames es := by
  match es with
  | [] => cases ht
  | e :: rest =>
      rw [listTokens, List.mem_append] at ht
      rw [listNames, List.mem_append]
      rcases ht with he | hrest
      · exact .inl (mem_names_of_finish he htag)
      · exact .inr (mem_listNames_of_finish hrest htag)

end

theorem bracketFree_lineStart (level : Nat) : BracketFree (lineStart level) := by
  refine bracketFree_cons.2 ⟨rfl, fun c hc => ?_⟩
  rw [List.eq_of_mem_replicate hc]
  rfl

variable {holdsText : String → Bool}

theorem wellFormed_of_mem_listTokens {level : Nat} {es : List Element}
    (h : ∀ e ∈ es, ∀ t ∈ e.tokens level, t.WellFormed) : ∀ t ∈ listTokens level es, t.WellFormed := by
  induction es with
  | nil => nofun
  | cons e es ih =>
      obtain ⟨he, hes⟩ := List.forall_mem_cons.1 h
      exact List.forall_mem_append.2 ⟨he, ih hes⟩

/-- The tokens of a regular element are well formed. -/
theorem Regular.wellFormed {e : Element} (h : e.Regular holdsText) (level : Nat) :
    ∀ t ∈ e.tokens level, t.WellFormed := by
  induction h generalizing level with
  | empty hname hattributes =>
      exact List.forall_mem_singleton.2 ⟨bracketFree_lineStart level, .start hname hattributes true⟩
  | text hname hattributes _ content =>
      refine List.forall_mem_cons.2 ⟨⟨bracketFree_lineStart level, .start hname hattributes false⟩, ?_⟩
      exact List.forall_mem_singleton.2 ⟨bracketFree_escaped content, .finish hname⟩
  | parent hname hattributes _ _ ih =>
      refine List.forall_mem_cons.2 ⟨⟨bracketFree_lineStart level, .start hname hattributes false⟩, ?_⟩
      refine List.forall_mem_append.2 ⟨wellFormed_of_mem_listTokens fun e he => ih e he (level + 1), ?_⟩
      exact List.forall_mem_singleton.2 ⟨bracketFree_lineStart level, .finish hname⟩

end Element

/-! ## The reader -/

/-- An element that was started, and the elements that stand before it. -/
structure OpenElement where
  name : String
  attributes : List Attribute
  before : List Element

/-- The elements read inside the innermost open element, and the open elements, innermost first. -/
structure Reader where
  inside : List Element
  opened : List OpenElement

/-- The element that ends, given the text before its end tag and the elements inside it. -/
def OpenElement.finish? (holdsText : String → Bool) (o : OpenElement) (before : List Char)
    (inside : List Element) : Option Element :=
  if holdsText o.name then
    if inside.isEmpty then
      (unescape? before).map fun content => .text o.name o.attributes (String.ofList content)
    else none
  else if isSpacing before then some (.parent o.name o.attributes inside)
  else none

namespace Reader

/-- Takes in one token. -/
def step (holdsText : String → Bool) (r : Reader) (t : Token) : Option Reader :=
  match t.tag with
  | .declaration _ => if isSpacing t.before then some r else none
  | .start name attributes true =>
    if isSpacing t.before then some { r with inside := r.inside ++ [.empty name attributes] }
    else none
  | .start name attributes false =>
    if isSpacing t.before then some ⟨[], ⟨name, attributes, r.inside⟩ :: r.opened⟩ else none
  | .finish name =>
    match r.opened with
    | [] => none
    | o :: outer =>
      if o.name = name then
        (o.finish? holdsText t.before r.inside).map fun e => ⟨o.before ++ [e], outer⟩
      else none

/-- Takes in tokens, one after the other. -/
def run (holdsText : String → Bool) (r : Reader) (ts : List Token) : Option Reader :=
  ts.foldlM (step holdsText) r

variable {holdsText : String → Bool}

theorem run_nil (r : Reader) : run holdsText r [] = some r := rfl

theorem run_cons (r : Reader) (t : Token) (ts : List Token) :
    run holdsText r (t :: ts) = (step holdsText r t).bind fun r => run holdsText r ts := rfl

theorem run_append (r : Reader) (ts us : List Token) :
    run holdsText r (ts ++ us) = (run holdsText r ts).bind fun r => run holdsText r us :=
  List.foldlM_append

theorem isSpacing_lineStart (level : Nat) : isSpacing (lineStart level) = true := by
  simp [isSpacing, lineStart, Char.isWhitespace]

/-- The tokens of elements add these, if those of each of them do. -/
theorem run_listTokens {level : Nat} {es : List Element}
    (h : ∀ e ∈ es, ∀ r : Reader,
      run holdsText r (e.tokens level) = some { r with inside := r.inside ++ [e] }) (r : Reader) :
    run holdsText r (Element.listTokens level es) = some { r with inside := r.inside ++ es } := by
  induction es generalizing r with
  | nil => rw [Element.listTokens, run_nil, List.append_nil]
  | cons e es ih =>
      obtain ⟨he, hes⟩ := List.forall_mem_cons.1 h
      rw [Element.listTokens, run_append, he, Option.bind_some, ih hes, List.append_assoc,
        List.singleton_append]

/-- The tokens of an element add it to the elements that were read. -/
theorem run_tokens {e : Element} (h : e.Regular holdsText) (level : Nat) (r : Reader) :
    run holdsText r (e.tokens level) = some { r with inside := r.inside ++ [e] } := by
  induction h generalizing level r with
  | empty => simp [Element.tokens, run_cons, run_nil, step, isSpacing_lineStart]
  | text _ _ hholds content =>
      simp [Element.tokens, run_cons, run_nil, step, isSpacing_lineStart, OpenElement.finish?, hholds,
        unescape?_escaped]
  | @parent name attributes children _ _ hholds _ ih =>
      have hchildren := run_listTokens (fun e he => ih e he (level + 1))
        ⟨[], ⟨name, attributes, r.inside⟩ :: r.opened⟩
      simp [Element.tokens, run_cons, run_nil, run_append, step, isSpacing_lineStart, hchildren,
        OpenElement.finish?, hholds]

end Reader

/-- The elements of a document, if all of them are finished. -/
def elements? (holdsText : String → Bool) (cs : List Char) : Option (List Element) := do
  let ts ← tokens? cs
  let r ← Reader.run holdsText ⟨[], []⟩ ts
  if r.opened.isEmpty then some r.inside else none

/-- The element of a document is read back, whatever the declaration before it says. -/
theorem elements?_chars {holdsText : String → Bool} {e : Element} (h : e.Regular holdsText)
    {body : List Char} (hbody : BracketFree body) (level : Nat) {after : List Char}
    (hafter : isSpacing after = true) :
    elements? holdsText ('<' :: '?' :: (body ++ '>' :: (e.chars level ++ after))) = some [e] := by
  have hchars : '<' :: '?' :: (body ++ '>' :: (e.chars level ++ after)) =
      ((⟨[], .declaration body⟩ : Token) :: e.tokens level).flatMap Token.chars ++ after := by
    simp [Token.chars, Tag.chars, Element.flatMap_tokens]
  have hwellFormed : ∀ t ∈ (⟨[], .declaration body⟩ : Token) :: e.tokens level, t.WellFormed :=
    List.forall_mem_cons.2 ⟨⟨List.forall_mem_nil _, .declaration hbody⟩, h.wellFormed level⟩
  have hstep : Reader.step holdsText ⟨[], []⟩ ⟨[], .declaration body⟩ = some ⟨[], []⟩ := rfl
  rw [hchars, elements?, tokens?_chars hwellFormed hafter]
  simp [Reader.run_cons, hstep, Reader.run_tokens h]

end SheetFill.Xml
