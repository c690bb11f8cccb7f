import SheetFill.Proofs.Output.ReadBack
import SheetFill.Proofs.Output.XmlReadBack

/-!
# Streams that stop

Sheets are written as they come, and the first failure among them ends the writing. What was written until
then is the opening of the document and every sheet before the failure, so each document that begins with
these sheets begins with it. The closing is not written, and it cannot be found in what was written either: in
JSON each line after the first begins with a sheet, and in XML no element inside the workbook has its name.
Nothing but the closing is missing: with it, what was written is read back to the sheets before the failure.

## Main definitions

* `Format.separator`, `Format.encoded` — what stands before a sheet, and the sheet itself.
* `Format.body` — the characters of sheets.
* `Format.readSheets?` — the sheets of a document.

## Main results

* `Format.flatMap_sheets_append` — sheets are written before what comes after them.
* `Format.json_closing_not_infix`, `Format.xml_closing_not_infix` — no closing is found among sheets.
* `Format.readSheets?_stopped` — the sheets before the failure are read back from what was written.
* `Format.stream_stops` — a stream with a failure in it.
-/

namespace SheetFill

open Text Json Xml

/-! ## Names of elements -/

namespace Output

theorem Preparation.workbook_not_mem_names (p : Preparation) : "workbook" ∉ p.toXml.names := by
  cases p with
  | clearCell row col => simp [toXml, Element.names]
  | insertRows before count copyFrom => simp [toXml, Element.names]

theorem workbook_not_mem_filterNames (f : Cell.FilterInvocation) : "workbook" ∉ (filterXml f).names := by
  rw [filterXml]
  split
  · simp [Element.names]
  · simp [Element.names, Element.mem_listNames]

theorem CellWrite.workbook_not_mem_names (c : CellWrite) : "workbook" ∉ c.toXml.names := by
  simp [toXml, Element.names, Element.listNames, Element.mem_listNames, workbook_not_mem_filterNames]

/-- No element of a sheet has the name of the document. -/
theorem Sheet.workbook_not_mem_names (s : Sheet) : "workbook" ∉ s.toXml.names := by
  simp [toXml, Element.names, Element.listNames, Element.mem_listNames,
    Preparation.workbook_not_mem_names, CellWrite.workbook_not_mem_names]

end Output

open Output

namespace Format

/-! ## What is written for sheets -/

/-- What stands between a sheet and those before it. -/
def separator (f : Format) (first : Bool) : List Char :=
  match f with
  | .json => if first then ['\n'] else [',', '\n']
  | .xml => []

/-- The characters of a sheet. -/
def encoded (f : Format) (s : Sheet) : List Char :=
  match f with
  | .json => s.toJson.chars
  | .xml => s.toXml.chars 1

/-- The characters of sheets, one after the other. -/
def body (f : Format) : Bool → List Sheet → List Char
  | _, [] => []
  | first, s :: sheets => f.separator first ++ (f.encoded s ++ body f false sheets)

theorem flatMap_sheet (f : Format) (first : Bool) (s : Sheet) :
    (f.sheet first s).flatMap Segment.chars = f.separator first ++ f.encoded s := by
  cases f with
  | json => simp [sheet, separator, encoded]
  | xml => simp [sheet, separator, encoded]

/-- Sheets are written before what comes after them, and do not fail. -/
theorem flatMap_sheets_append (f : Format) (first : Bool) (xs : List Sheet)
    (items : List (Except FillError Sheet)) :
    (f.sheets first (xs.map .ok ++ items)).1.flatMap Segment.chars =
        f.body first xs ++ (f.sheets (first && xs.isEmpty) items).1.flatMap Segment.chars ∧
      (f.sheets first (xs.map .ok ++ items)).2 = (f.sheets (first && xs.isEmpty) items).2 := by
  induction xs generalizing first with
  | nil => simp [body]
  | cons s xs ih =>
      obtain ⟨hchars, hfailure⟩ := ih false
      rw [Bool.false_and] at hchars hfailure
      rw [List.map_cons, List.cons_append, sheets, List.isEmpty_cons, Bool.and_false]
      refine ⟨?_, hfailure⟩
      show (f.sheet first s ++ (f.sheets false (xs.map .ok ++ items)).1).flatMap Segment.chars = _
      rw [List.flatMap_append, flatMap_sheet, hchars, body]
      simp only [List.append_assoc]

theorem stream_eq (f : Format) (items : List (Except FillError Sheet)) :
    f.stream items = (f.opening ++ (f.sheets true items).1, (f.sheets true items).2) := rfl

/-- A document is its opening, its sheets and its closing. -/
theorem toList_render_append (f : Format) (xs ys : List Sheet) :
    (f.render (xs ++ ys)).toList = f.opening.flatMap Segment.chars ++ f.body true xs ++
      (f.body xs.isEmpty ys ++ f.closing.flatMap Segment.chars) := by
  have hclosing := (f.flatMap_sheets_append xs.isEmpty ys []).1
  have hsheets := (f.flatMap_sheets_append true xs (ys.map .ok)).1
  rw [List.append_nil, sheets] at hclosing
  rw [Bool.true_and, hclosing] at hsheets
  rw [render, Segment.text, String.toList_ofList, stream_eq, List.map_append, List.flatMap_append,
    hsheets, List.append_assoc]

/-! ## No closing among sheets -/

/-- The first piece of a text that does not begin with a separator begins as the text does. -/
theorem exists_cut_cons {sep c : Char} (h : c ≠ sep) (cs : List Char) :
    ∃ piece pieces, cut sep (c :: cs) = (c :: piece) :: pieces ∧ (cut sep cs).tail = pieces := by
  rw [cut, if_neg h]
  cases hcut : cut sep cs with
  | nil => exact absurd hcut (cut_ne_nil sep cs)
  | cons piece pieces => exact ⟨piece, pieces, rfl, rfl⟩

/-- In JSON, every line after the first begins with the bracket of a sheet. -/
theorem head?_of_mem_tail_cut {front : List Char} (hfront : '\n' ∉ front) (first : Bool)
    (xs : List Sheet) :
    ∀ line ∈ (cut '\n' (front ++ Format.json.body first xs)).tail, line.head? = some '\x7b' := by
  induction xs generalizing front first with
  | nil =>
      rw [body, List.append_nil, cut_of_not_mem hfront]
      nofun
  | cons s xs ih =>
      obtain ⟨comma, hcomma, hseparator⟩ : ∃ comma, '\n' ∉ comma ∧
          Format.json.separator first = comma ++ ['\n'] := by
        cases first with
        | false => exact ⟨[','], by decide, rfl⟩
        | true => exact ⟨[], by decide, rfl⟩
      have hend : '\n' ∉ front ++ comma := by simp [hfront, hcomma]
      have htext : front ++ Format.json.body first (s :: xs) =
          (front ++ comma) ++ '\n' :: (s.toJson.chars ++ Format.json.body false xs) := by
        simp [body, hseparator, encoded]
      have hsheet : s.toJson.chars = '\x7b' :: s.toJson.chars.tail := by
        rw [Sheet.toJson, Value.chars]
        rfl
      have hlater := ih (newline_not_mem_chars s.toJson) false
      rw [htext, cut_append hend, List.tail_cons]
      rw [hsheet, List.cons_append] at hlater ⊢
      obtain ⟨piece, pieces, hcut, -⟩ := exists_cut_cons (show '\x7b' ≠ '\n' by decide)
        (s.toJson.chars.tail ++ Format.json.body false xs)
      rw [hcut] at hlater ⊢
      exact List.forall_mem_cons.2 ⟨rfl, hlater⟩

/-- The line that ends a JSON document is not among those of its sheets. -/
theorem json_closing_not_infix (xs : List Sheet) :
    ¬ Format.json.closing.flatMap Segment.chars <:+:
      Format.json.opening.flatMap Segment.chars ++ Format.json.body true xs := by
  rintro ⟨front, back, htext⟩
  have hopening : '\n' ∉ Format.json.opening.flatMap Segment.chars := by decide
  have hlines := head?_of_mem_tail_cut hopening true xs
  have hend : front ++ Format.json.closing.flatMap Segment.chars ++ back =
      front ++ '\n' :: ([']', '\x7d'] ++ '\n' :: back) := by
    simp [closing]
  obtain ⟨first, later, hfront⟩ := List.exists_cons_of_ne_nil (cut_ne_nil '\n' front)
  rw [← htext, hend, cut_append_cut, cut_append (by decide), hfront, List.cons_append,
    List.tail_cons] at hlines
  exact absurd (hlines [']', '\x7d'] (by simp)) (by decide)

theorem xml_body (first : Bool) (xs : List Sheet) :
    Format.xml.body first xs = Element.listChars 1 (xs.map Sheet.toXml) := by
  induction xs generalizing first with
  | nil => rfl
  | cons s xs ih =>
      rw [body, ih, List.map_cons, Element.listChars]
      rfl

/-- The tags written before the closing of an XML document. -/
def openTokens (xs : List Sheet) : List Xml.Token :=
  ⟨[], .declaration declaration⟩ :: ⟨['\n'], .start "workbook" [] false⟩ ::
    Element.listTokens 1 (xs.map Sheet.toXml)

theorem flatMap_openTokens (xs : List Sheet) :
    (openTokens xs).flatMap Xml.Token.chars =
      Format.xml.opening.flatMap Segment.chars ++ Format.xml.body true xs := by
  have hopening : Format.xml.opening.flatMap Segment.chars =
      Xml.Token.chars ⟨[], .declaration declaration⟩ ++
        Xml.Token.chars ⟨['\n'], .start "workbook" [] false⟩ := by decide
  rw [hopening, xml_body, openTokens, List.flatMap_cons, List.flatMap_cons, Element.flatMap_listTokens,
    List.append_assoc]

theorem wellFormed_openTokens (xs : List Sheet) : ∀ t ∈ openTokens xs, t.WellFormed := by
  have hdeclaration : BracketFree declaration := by decide
  have hstart : BracketFree ['\n'] := by decide
  refine List.forall_mem_cons.2 ⟨⟨List.forall_mem_nil _, .declaration hdeclaration⟩, ?_⟩
  refine List.forall_mem_cons.2 ⟨⟨hstart, .start (by decide) (List.forall_mem_nil _) false⟩, ?_⟩
  apply Element.wellFormed_of_mem_listTokens
  rw [List.forall_mem_map]
  exact fun s _ => s.regular_toXml.wellFormed 1

/-- The tag that ends an XML document is not among those of its sheets. -/
theorem xml_closing_not_infix (xs : List Sheet) :
    ¬ Format.xml.closing.flatMap Segment.chars <:+:
      Format.xml.opening.flatMap Segment.chars ++ Format.xml.body true xs := by
  intro hwithin
  have hclosing : endTag "workbook" <:+: Format.xml.closing.flatMap Segment.chars :=
    ⟨['\n'], ['\n'], by decide⟩
  have htag := hclosing.trans hwithin
  rw [← flatMap_openTokens] at htag
  obtain ⟨t, ht, hfinish⟩ := exists_finish_of_infix (wellFormed_openTokens xs) (by decide) htag
  rw [openTokens, List.mem_cons, List.mem_cons] at ht
  rcases ht with rfl | rfl | ht
  · cases hfinish
  · cases hfinish
  · obtain ⟨e, he, hname⟩ := Element.mem_listNames.1 (Element.mem_listNames_of_finish ht hfinish)
    obtain ⟨s, -, rfl⟩ := List.mem_map.1 he
    exact s.workbook_not_mem_names hname

/-- The closing of a document is not found in its opening and its sheets. -/
theorem closing_not_infix (f : Format) (xs : List Sheet) :
    ¬ f.closing.flatMap Segment.chars <:+: f.opening.flatMap Segment.chars ++ f.body true xs := by
  cases f with
  | json => exact json_closing_not_infix xs
  | xml => exact xml_closing_not_infix xs

/-! ## Streams -/

/-- What a stream writes until it stops: the opening, and the sheets before the failure. -/
theorem flatMap_stream_stopped (f : Format) (xs : List Sheet) (e : FillError)
    (rest : List (Except FillError Sheet)) :
    (f.stream (xs.map .ok ++ .error e :: rest)).1.flatMap Segment.chars =
      f.opening.flatMap Segment.chars ++ f.body true xs := by
  have hchars := (f.flatMap_sheets_append true xs (.error e :: rest)).1
  rw [stream_eq, List.flatMap_append, hchars, sheets, List.flatMap_nil, List.append_nil]

/-- The sheets that are read from a document. -/
def readSheets? : Format → String → Option (List Sheet)
  | .json, text => (Value.read? text).bind sheetsOfJson?
  | .xml, text => sheetsOfXml? text

/-- A document is read back to its sheets. -/
theorem readSheets?_render (f : Format) {xs : List Sheet}
    (h : ∀ s ∈ xs, ∀ n ∈ s.numbers, n ≤ Number.maxWord) : f.readSheets? (f.render xs) = some xs := by
  cases f with
  | json =>
      rw [readSheets?, read?_render_json h, Option.bind_some]
      exact sheetsOfJson?_documentJson xs
  | xml => exact sheetsOfXml?_render xs

/--
What a stream wrote before it stopped holds every sheet completely: with the closing of a document after it,
it is read back to the sheets before the failure, all of them and no others.
-/
theorem readSheets?_stopped (f : Format) {xs : List Sheet}
    (h : ∀ s ∈ xs, ∀ n ∈ s.numbers, n ≤ Number.maxWord) (e : FillError)
    (rest : List (Except FillError Sheet)) :
    f.readSheets? (Segment.text ((f.stream (xs.map .ok ++ .error e :: rest)).1 ++ f.closing)) = some xs := by
  have hdocument := f.toList_render_append xs []
  rw [List.append_nil, body, List.nil_append, ← flatMap_stream_stopped f xs e rest,
    ← List.flatMap_append] at hdocument
  rw [Segment.text, ← hdocument, String.ofList_toList]
  exact f.readSheets?_render h

/--
A failure after some sheets ends a stream with that failure, whatever comes after it. What was written is the
opening and these sheets, and nothing more: the closing is not found in it. Every document that begins with
these sheets begins with it, and goes on.
-/
theorem stream_stops (f : Format) (xs : List Sheet) (e : FillError)
    (rest : List (Except FillError Sheet)) :
    let run := f.stream (xs.map .ok ++ .error e :: rest)
    let written := (Segment.text run.1).toList
    run.2 = some e ∧ written = (Segment.text f.opening).toList ++ f.body true xs ∧
      ¬ (Segment.text f.closing).toList <:+: written ∧
      ∀ ys, written <+: (f.render (xs ++ ys)).toList ∧ written ≠ (f.render (xs ++ ys)).toList := by
  intro run written
  have hfailure := (f.flatMap_sheets_append true xs (.error e :: rest)).2
  have hwritten : written = f.opening.flatMap Segment.chars ++ f.body true xs := by
    simp only [written, run, Segment.text, String.toList_ofList, flatMap_stream_stopped]
  refine ⟨hfailure, ?_, ?_, fun ys => ?_⟩
  · rw [hwritten, Segment.text, String.toList_ofList]
  · rw [hwritten, Segment.text, String.toList_ofList]
    exact f.closing_not_infix xs
  · have hdocument := f.toList_render_append xs ys
    rw [← hwritten] at hdocument
    rw [hdocument]
    refine ⟨List.prefix_append _ _, fun hsame => ?_⟩
    have hclosing : f.closing.flatMap Segment.chars = [] :=
      (List.append_eq_nil_iff.1 (List.self_eq_append_right.1 hsame)).2
    cases f with
    | json => exact absurd hclosing (by decide)
    | xml => exact absurd hclosing (by decide)

end Format

end SheetFill
