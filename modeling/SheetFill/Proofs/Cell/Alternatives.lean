import SheetFill.Proofs.Cell.Faults

/-!
# The grammar of references

The elements of an alternative are the pieces between its dots, but a dot that directly follows an at sign is part
of its element. There is one way to cut a text like this, and the elements joined by dots are the text again.

A reference can be read just if no element is blank, or if it is the blank plain one. Each alternative then stands
for what its elements say: a key at a location, or, when there is one element only, its own text. Since a dot that
stands alone is never an element, a key cannot be mistaken for the mark of such a literal.

## Main definitions

* `IsElements` — the elements of a text, by the dots in them and between them.
* `Alternative.ofElements` — the alternative that elements stand for.

## Main results

* `isElements_iff` — a text has these elements, and no others.
* `Alternative.parse_eq_ok_iff` — when an alternative can be read, and as what.
* `Reference.parse_grammar` — the grammar of references.
-/

namespace SheetFill.Cell

open Text

/-! ## Dots in elements and between them -/

/-- Every dot of a text directly follows an at sign; `before` is the character before the text, if there is one. -/
def Escaped (before : Option Char) (cs : List Char) : Prop :=
  ∀ front back, cs = front ++ '.' :: back → front.getLast?.or before = some '@'

theorem escaped_nil (before : Option Char) : Escaped before [] := by
  intro front back h
  have hlength := congrArg List.length h
  simp at hlength

theorem getLast?_cons_or (c : Char) (cs : List Char) (before : Option Char) :
    (c :: cs).getLast?.or before = cs.getLast?.or (some c) := by
  rw [List.getLast?_cons]
  cases cs.getLast? <;> rfl

theorem escaped_cons_iff {before : Option Char} {c : Char} {cs : List Char} :
    Escaped before (c :: cs) ↔ (c = '.' → before = some '@') ∧ Escaped (some c) cs := by
  constructor
  · intro h
    refine ⟨fun hc => h [] cs (by rw [hc]; rfl), fun front back heq => ?_⟩
    rw [← getLast?_cons_or c front before]
    exact h (c :: front) back (by rw [heq]; rfl)
  · rintro ⟨hc, hcs⟩ front back heq
    cases front with
    | nil =>
        obtain ⟨hdot, rfl⟩ := List.cons.inj heq
        exact hc hdot
    | cons d front =>
        obtain ⟨rfl, hrest⟩ := List.cons.inj heq
        rw [getLast?_cons_or]
        exact hcs front back hrest

/-- A text has no dot to cut at, or there is a first one. -/
theorem escaped_or_exists (before : Option Char) (cs : List Char) : Escaped before cs ∨
    ∃ e rest, cs = e ++ '.' :: rest ∧ Escaped before e ∧ e.getLast?.or before ≠ some '@' := by
  induction cs generalizing before with
  | nil => exact .inl (escaped_nil before)
  | cons c cs ih =>
      by_cases hc : c = '.' → before = some '@'
      · rcases ih (some c) with hcs | ⟨e, rest, rfl, he, hlast⟩
        · exact .inl (escaped_cons_iff.2 ⟨hc, hcs⟩)
        · refine .inr ⟨c :: e, rest, rfl, escaped_cons_iff.2 ⟨hc, he⟩, ?_⟩
          rwa [getLast?_cons_or]
      · obtain ⟨rfl, hbefore⟩ := Classical.not_imp.1 hc
        exact .inr ⟨[], cs, rfl, escaped_nil before, hbefore⟩

/-- The elements of a text: they spell it with dots between them, and it is these dots that follow no at sign. -/
structure IsElements (segment : List Char) (es : List (List Char)) : Prop where
  nonempty : es ≠ []
  joined : joinWith ['.'] es = segment
  escaped : ∀ e ∈ es, Escaped none e
  unescaped : ∀ e ∈ es.dropLast, e.getLast? ≠ some '@'

namespace IsElements

theorem single {segment : List Char} (h : Escaped none segment) : IsElements segment [segment] where
  nonempty := List.cons_ne_nil _ _
  joined := rfl
  escaped := fun e he => by rwa [List.mem_singleton.1 he]
  unescaped := nofun

theorem cons {e rest : List Char} {es : List (List Char)} (he : Escaped none e)
    (hlast : e.getLast? ≠ some '@') (h : IsElements rest es) :
    IsElements (e ++ '.' :: rest) (e :: es) where
  nonempty := List.cons_ne_nil _ _
  joined := by
    rw [joinWith_cons h.nonempty, h.joined, List.append_assoc]
    rfl
  escaped := List.forall_mem_cons.2 ⟨he, h.escaped⟩
  unescaped := by
    rw [List.dropLast_cons_of_ne_nil h.nonempty]
    exact List.forall_mem_cons.2 ⟨hlast, h.unescaped⟩

/-- The elements behind the first one are those of the rest. -/
theorem tail {segment e : List Char} {es : List (List Char)} (h : IsElements segment (e :: es))
    (hne : es ≠ []) : segment = e ++ '.' :: joinWith ['.'] es ∧ e.getLast? ≠ some '@' ∧
      IsElements (joinWith ['.'] es) es := by
  have hunescaped := h.unescaped
  rw [List.dropLast_cons_of_ne_nil hne, List.forall_mem_cons] at hunescaped
  refine ⟨?_, hunescaped.1, hne, rfl, fun d hd => h.escaped d (List.mem_cons_of_mem _ hd), hunescaped.2⟩
  rw [← h.joined, joinWith_cons hne, List.append_assoc]
  rfl

end IsElements

namespace Alternative

theorem elementsFrom_of_escaped {before : Option Char} {cs : List Char} (h : Escaped before cs) :
    elementsFrom (before == some '@') cs = [cs] := by
  induction cs generalizing before with
  | nil => rfl
  | cons c cs ih =>
      obtain ⟨hc, hcs⟩ := escaped_cons_iff.1 h
      have hkept : ¬ (c = '.' ∧ (before == some '@') = false) := by
        rintro ⟨hdot, hbefore⟩
        rw [hc hdot] at hbefore
        cases hbefore
      have hrest := ih hcs
      rw [Option.some_beq_some] at hrest
      rw [elementsFrom, if_neg hkept, hrest]

/-- The first element ends at the first dot that is not escaped. -/
theorem elementsFrom_append {before : Option Char} {e : List Char} (h : Escaped before e)
    (hlast : e.getLast?.or before ≠ some '@') (rest : List Char) :
    elementsFrom (before == some '@') (e ++ '.' :: rest) = e :: elements rest := by
  induction e generalizing before with
  | nil =>
      have hbefore : (before == some '@') = false := beq_eq_false_iff_ne.2 hlast
      rw [List.nil_append, elementsFrom, if_pos ⟨rfl, hbefore⟩, elements]
  | cons c e ih =>
      obtain ⟨hc, he⟩ := escaped_cons_iff.1 h
      have hkept : ¬ (c = '.' ∧ (before == some '@') = false) := by
        rintro ⟨hdot, hbefore⟩
        rw [hc hdot] at hbefore
        cases hbefore
      rw [getLast?_cons_or] at hlast
      have hrest := ih he hlast
      rw [Option.some_beq_some] at hrest
      rw [List.cons_append, elementsFrom, if_neg hkept, hrest]

theorem elements_of_escaped {segment : List Char} (h : Escaped none segment) : elements segment = [segment] :=
  elementsFrom_of_escaped h

theorem elements_append {e : List Char} (h : Escaped none e) (hlast : e.getLast? ≠ some '@')
    (rest : List Char) : elements (e ++ '.' :: rest) = e :: elements rest :=
  elementsFrom_append h (by rwa [Option.or_none]) rest

end Alternative

theorem IsElements.eq_elements {segment : List Char} {es : List (List Char)} (h : IsElements segment es) :
    es = Alternative.elements segment := by
  induction es generalizing segment with
  | nil => exact absurd rfl h.nonempty
  | cons e es ih =>
      have he : Escaped none e := h.escaped e List.mem_cons_self
      cases es with
      | nil =>
          obtain rfl : e = segment := h.joined
          exact (Alternative.elements_of_escaped he).symm
      | cons next es =>
          obtain ⟨rfl, hlast, hrest⟩ := h.tail (List.cons_ne_nil next es)
          rw [Alternative.elements_append he hlast, ← ih hrest]

/-- The scanner finds the elements, one after the other. -/
theorem isElements_elements (segment : List Char) : IsElements segment (Alternative.elements segment) := by
  rcases escaped_or_exists none segment with hsegment | ⟨e, rest, hsegment, he, hlast⟩
  · rw [Alternative.elements_of_escaped hsegment]
    exact .single hsegment
  · rw [Option.or_none] at hlast
    have hshorter : rest.length < segment.length := by
      rw [hsegment, List.length_append, List.length_cons]
      omega
    have hrest := isElements_elements rest
    rw [hsegment, Alternative.elements_append he hlast]
    exact .cons he hlast hrest
termination_by segment.length

theorem isElements_iff {segment : List Char} {es : List (List Char)} :
    IsElements segment es ↔ es = Alternative.elements segment := by
  refine ⟨fun h => h.eq_elements, ?_⟩
  rintro rfl
  exact isElements_elements segment

/-! ## Alternatives -/

/-- A text whose dots are escaped is not trimmed to a dot: an at sign stands before it. -/
theorem trim_ne_dot {e : List Char} (h : Escaped none e) : trim e ≠ ['.'] := by
  intro htrim
  have hdot : '.' ∈ e := mem_of_mem_trim (by rw [htrim]; exact List.mem_cons_self)
  obtain ⟨front, back, rfl⟩ := List.append_of_mem hdot
  have hat := h front back rfl
  rw [Option.or_none] at hat
  have hmem : '@' ∈ trim (front ++ '.' :: back) :=
    mem_trim (List.mem_append_left _ (List.mem_of_getLast? hat)) (by decide)
  rw [htrim] at hmem
  cases hmem with
  | tail _ hmem => cases hmem

namespace Alternative

/-- What elements stand for: a key at a location, or, if there is one only, a text that refers to no data. -/
def ofElements : List (List Char) → Alternative
  | [text] => { location := String.ofList text, key := selfKey }
  | es => {
    location := String.ofList (joinWith ['/'] (es.dropLast.map trim))
    key := String.ofList (trim (es.getLastD [])) }

theorem ofElements_concat {front : List (List Char)} (hfront : front ≠ []) (key : List Char) :
    ofElements (front ++ [key]) =
      { location := String.ofList (joinWith ['/'] (front.map trim)), key := String.ofList (trim key) } := by
  rw [ofElements, List.dropLast_concat, List.getLastD_concat]
  intro text hes
  have hlength := congrArg List.length hes
  rw [List.length_append, List.length_singleton, List.length_singleton] at hlength
  exact hfront (List.length_eq_zero_iff.1 (by omega))

/-- A text is read if it has no blank elements, as what its elements stand for. -/
theorem parse_eq_ok_iff {segment : List Char} {a : Alternative} : parse segment = .ok a ↔
    (∀ e ∈ elements segment, allBlank e = false) ∧ a = ofElements (elements segment) := by
  have helements := isElements_elements segment
  by_cases hall : ∀ e ∈ elements segment, allBlank e = false
  · have hsegment : ¬ segment.isEmpty = true := by
      intro hempty
      rw [List.isEmpty_iff.1 hempty] at hall
      exact absurd (hall [] List.mem_cons_self) (by decide)
    have hblank : ¬ (elements segment).any allBlank = true := by
      rw [List.any_eq_true]
      rintro ⟨e, he, hblank⟩
      rw [hall e he] at hblank
      cases hblank
    have hread : parse segment = .ok (ofElements (elements segment)) := by
      rw [parse, if_neg hsegment, if_neg hblank]
      -- the last element comes first
      generalize hreverse : (elements segment).reverse = reversed
      rw [List.reverse_eq_iff] at hreverse
      rw [hreverse] at helements ⊢
      cases reversed with
      | nil => exact absurd rfl helements.nonempty
      | cons key front =>
          cases front with
          | nil =>
              obtain rfl : key = segment := helements.joined
              rfl
          | cons element front =>
              rw [List.reverse_cons, ofElements_concat (by simp)]
    rw [hread, Except.ok.injEq, eq_comm]
    exact ⟨fun h => ⟨hall, h⟩, And.right⟩
  · refine ⟨fun h => absurd ?_ hall, fun h => absurd h.1 hall⟩
    intro e he
    rw [Bool.eq_false_iff]
    intro hblank
    have hany : (elements segment).any allBlank = true := List.any_eq_true.2 ⟨e, he, hblank⟩
    by_cases hempty : segment.isEmpty = true
    · rw [parse, if_pos hempty] at h
      cases h
    · rw [parse, if_neg hempty, if_pos hany] at h
      cases h

/-- One element alone is a literal, and no key looks like the mark of one. -/
theorem isSelf_ofElements (segment : List Char) :
    (ofElements (elements segment)).isSelf = true ↔ (elements segment).length = 1 := by
  have helements := isElements_elements segment
  generalize elements segment = es at helements
  obtain ⟨front, key, rfl⟩ := (List.eq_nil_or_concat es).resolve_left helements.nonempty
  rw [List.concat_eq_append] at helements ⊢
  cases front with
  | nil => exact ⟨fun _ => rfl, fun _ => rfl⟩
  | cons element front =>
      have hkey : trim key ≠ ['.'] :=
        trim_ne_dot (helements.escaped key (List.mem_append_right _ List.mem_cons_self))
      rw [ofElements_concat (List.cons_ne_nil _ _), isSelf, beq_iff_eq, List.length_append]
      constructor
      · intro hself
        have htext := congrArg String.toList hself
        rw [String.toList_ofList] at htext
        exact absurd htext hkey
      · intro hlength
        simp at hlength

end Alternative

/-! ## References -/

namespace Reference

theorem parse_of_blank {body : List Char} (h : allBlank body = true) :
    parse .plain body =
      .ok { mode := .plain, source := "", first := { location := "", key := selfKey }, rest := [] } :=
  if_pos ⟨rfl, h⟩

/-- Any other body is read alternative by alternative. -/
theorem parse_eq_ok_iff {mode : Mode} {body : List Char} {r : Reference}
    (h : ¬ (mode = .plain ∧ allBlank body = true)) : parse mode body = .ok r ↔
      ∃ first rest, ((cut '|' body).mapM fun segment => Alternative.parse (trim segment)) =
        .ok (first :: rest) ∧ r = { mode, source := String.ofList (trim body), first, rest } := by
  rw [parse, if_neg h]
  constructor
  · intro hparse
    split at hparse
    · cases hparse
    · cases hparse
    · next first rest halternatives =>
        cases hparse
        exact ⟨first, rest, halternatives, rfl⟩
  · rintro ⟨first, rest, halternatives, rfl⟩
    rw [halternatives]

theorem forall₂_alternatives {mode : Mode} {body : List Char} {r : Reference}
    (h : ¬ (mode = .plain ∧ allBlank body = true)) (hr : parse mode body = .ok r) :
    List.Forall₂ (fun segment a => Alternative.parse (trim segment) = .ok a) (cut '|' body) r.alternatives := by
  obtain ⟨first, rest, halternatives, rfl⟩ := (parse_eq_ok_iff h).1 hr
  exact mapM_eq_ok_iff.1 halternatives

theorem exists_parse_iff {mode : Mode} {body : List Char} (h : ¬ (mode = .plain ∧ allBlank body = true)) :
    (∃ r, parse mode body = .ok r) ↔
      ∀ segment ∈ cut '|' body, ∃ a, Alternative.parse (trim segment) = .ok a := by
  rw [← exists_mapM_eq_ok_iff]
  constructor
  · rintro ⟨r, hr⟩
    obtain ⟨first, rest, halternatives, -⟩ := (parse_eq_ok_iff h).1 hr
    exact ⟨first :: rest, halternatives⟩
  · rintro ⟨alternatives, halternatives⟩
    cases alternatives with
    | nil =>
        have hnone := List.forall₂_nil_right_iff.1 (mapM_eq_ok_iff.1 halternatives)
        exact absurd hnone (cut_ne_nil '|' body)
    | cons first rest => exact ⟨_, (parse_eq_ok_iff h).2 ⟨first, rest, halternatives, rfl⟩⟩

end Reference

/--
The elements of a text are the pieces between the dots that do not directly follow an at sign. A reference is read
if it is plain and blank, or if no element of its alternatives is blank. Each alternative between the bars then has
its entry: the last element is a key at the location of the others, and one element alone is a literal. No other
entry is one, whatever its text, and nothing of an alternative is lost.
-/
theorem Reference.parse_grammar (mode : Mode) (body : List Char) :
    (∀ segment es, IsElements segment es ↔ es = Alternative.elements segment) ∧
      ((∃ r, Reference.parse mode body = .ok r) ↔ (mode = .plain ∧ allBlank body = true) ∨
        ∀ segment ∈ body.splitOn '|', ∀ e ∈ Alternative.elements (trim segment), allBlank e = false) ∧
      (∀ r, Reference.parse mode body = .ok r → allBlank body = false →
        List.Forall₂ (fun segment a =>
          a = Alternative.ofElements (Alternative.elements (trim segment)) ∧
            (a.isSelf = true ↔ (Alternative.elements (trim segment)).length = 1))
          (body.splitOn '|') r.alternatives) ∧
      ∀ segment ∈ body.splitOn '|',
        joinWith ['.'] (Alternative.elements (trim segment)) = trim segment := by
  rw [← cut_eq_splitOn]
  refine ⟨fun segment es => isElements_iff, ?_, fun r hr hbody => ?_,
    fun segment _ => (isElements_elements (trim segment)).joined⟩
  · by_cases hblank : mode = .plain ∧ allBlank body = true
    · obtain ⟨rfl, hbody⟩ := hblank
      exact ⟨fun _ => .inl ⟨rfl, hbody⟩, fun _ => ⟨_, Reference.parse_of_blank hbody⟩⟩
    · rw [Reference.exists_parse_iff hblank, or_iff_right hblank]
      simp only [Alternative.parse_eq_ok_iff, exists_and_left, exists_eq, and_true]
  · have hblank : ¬ (mode = .plain ∧ allBlank body = true) := by
      rw [hbody]
      exact fun h => Bool.false_ne_true h.2
    refine (Reference.forall₂_alternatives hblank hr).imp fun segment a ha => ?_
    obtain ⟨-, rfl⟩ := Alternative.parse_eq_ok_iff.1 ha
    exact ⟨rfl, Alternative.isSelf_ofElements (trim segment)⟩

/-- A key with a dot in it, a literal that ends in one, and the reference that they make. -/
theorem Reference.parse_grammar_escaped :
    let body := "items . sold.@.id | N.B@. | x@.".toList
    let r : Reference := ⟨.group, "items . sold.@.id | N.B@. | x@.", ⟨"items/sold", "@.id"⟩,
      [⟨"N", "B@."⟩, ⟨"x@.", "."⟩]⟩
    Reference.parse .group body = .ok r ∧ allBlank body = false ∧
      r.alternatives.map Alternative.isSelf = [false, false, true] ∧
      List.Forall₂ (fun segment a =>
          a = Alternative.ofElements (Alternative.elements (trim segment)) ∧
            (a.isSelf = true ↔ (Alternative.elements (trim segment)).length = 1))
        (body.splitOn '|') r.alternatives := by
  intro body r
  have hr : Reference.parse .group body = .ok r := by decide +kernel
  have hbody : allBlank body = false := by decide +kernel
  obtain ⟨-, -, hentries, -⟩ := Reference.parse_grammar .group body
  exact ⟨hr, hbody, by decide, hentries r hr hbody⟩

end SheetFill.Cell
