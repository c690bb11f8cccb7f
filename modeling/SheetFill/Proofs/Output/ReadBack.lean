import SheetFill.Output.Document
import SheetFill.Proofs.Json.RoundTrip

/-!
# Reading a JSON document back

The JSON document of a list of sheets is read back to the same sheets in the same order. What is left out
of the document where there is nothing to say, the reference row and the filters of a cell, is read as
absent. Each sheet stands on a line of its own.

The numbers of a sheet are taken to be of 64 bits; beyond that they would be read as doubles.

## Main definitions

* `Preparation.ofJson?`, `CellWrite.ofJson?`, `Sheet.ofJson?`, `sheetsOfJson?` — what is read from values.
* `Sheet.numbers` — the numbers of a sheet.
* `sheetLines` — the lines of sheets.

## Main results

* `Sheet.ofJson?_toJson` — a sheet is read back from its value.
* `Format.tokens_render`, `Format.cut_render` — the tokens of a document, and its lines.
* `Format.render_json_readBack` — a document is read back.
-/

namespace SheetFill

open Cell Json Text

namespace Output

/-! ## Reading values -/

/-- A natural number. -/
def natural? : Value → Option Nat
  | .number (.natural n) => some n
  | _ => none

/-- A string. -/
def string? : Value → Option String
  | .string s => some s
  | _ => none

/-- A truth value. -/
def bool? : Value → Option Bool
  | .bool b => some b
  | _ => none

/-- The items of an array, each one read. -/
def itemsOf? {α : Type} (read? : Value → Option α) : Value → Option (List α)
  | .array items => items.mapM read?
  | _ => none

/-- A member that must be there. -/
def memberOf? {α : Type} (key : String) (read? : Value → Option α) (v : Value) : Option α :=
  (v.member? key).bind read?

/-- A member that may be missing, and what stands for it then. -/
def memberOr? {α : Type} (key : String) (absent : α) (read? : Value → Option α) (v : Value) : Option α :=
  match v.member? key with
  | none => some absent
  | some w => read? w

/-- The preparation of a value, by its `op`. -/
def Preparation.ofJson? (v : Value) : Option Preparation := do
  let op ← memberOf? "op" string? v
  if op = "clear_cell" then
    let row ← memberOf? "row" natural? v
    let col ← memberOf? "col" natural? v
    return .clearCell row col
  else if op = "insert_rows" then
    let before ← memberOf? "before" natural? v
    let count ← memberOf? "count" natural? v
    let copyFrom ← memberOf? "copy_from" natural? v
    return .insertRows before count copyFrom
  else none

/-- The filter invocation of a value. -/
def filterOfJson? (v : Value) : Option FilterInvocation := do
  let name ← memberOf? "name" string? v
  let args ← memberOf? "args" (itemsOf? string?) v
  return { name, args }

/-- The cell of a value. -/
def CellWrite.ofJson? (v : Value) : Option CellWrite := do
  let row ← memberOf? "row" natural? v
  let col ← memberOf? "col" natural? v
  let templateRow ← memberOf? "original_row" natural? v
  let templateCol ← memberOf? "original_col" natural? v
  let value ← memberOf? "value" string? v
  let refRow ← memberOr? "ref_row" none (fun w => (natural? w).map some) v
  let filters ← memberOr? "filters" [] (itemsOf? filterOfJson?) v
  return { row, col, templateRow, templateCol, value, refRow, filters }

/-- The sheet of a value. -/
def Sheet.ofJson? (v : Value) : Option Sheet := do
  let name ← memberOf? "name" string? v
  let templateIndex ← memberOf? "template_index" natural? v
  let multiple ← memberOf? "multiple" bool? v
  let preparations ← memberOf? "priors" (itemsOf? Preparation.ofJson?) v
  let cells ← memberOf? "cells" (itemsOf? CellWrite.ofJson?) v
  return { name, templateIndex, multiple, preparations, cells }

/-- The sheets of a document. -/
def sheetsOfJson? (v : Value) : Option (List Sheet) := memberOf? "sheets" (itemsOf? Sheet.ofJson?) v

/-! ## What is written is read -/

/-- A list whose items are all read back is read back. -/
theorem mapM_eq_some_self {α : Type} {f : α → Option α} {as : List α} (h : ∀ a ∈ as, f a = some a) :
    as.mapM f = some as := by
  induction as with
  | nil => rfl
  | cons a as ih =>
      obtain ⟨ha, has⟩ := List.forall_mem_cons.1 h
      rw [List.mapM_cons, ha, ih has]
      rfl

section RoundTrip

open Value (lookup sorted sortedItems_eq_map lookup_append member?_sorted_object)

/-- Items are read back one by one. -/
theorem itemsOf?_sorted {α : Type} {read? : Value → Option α} {write : α → Value} {as : List α}
    (h : ∀ a ∈ as, read? (write a).sorted = some a) :
    itemsOf? read? (Value.array (as.map write)).sorted = some as := by
  rw [sorted, itemsOf?, sortedItems_eq_map, List.map_map, List.mapM_map]
  exact mapM_eq_some_self h

@[simp]
theorem natural?_jsonNumber (n : Nat) : natural? (jsonNumber n).sorted = some n := rfl

@[simp]
theorem string?_sorted (s : String) : string? (Value.string s).sorted = some s := rfl

@[simp]
theorem bool?_sorted (b : Bool) : bool? (Value.bool b).sorted = some b := rfl

theorem Preparation.ofJson?_toJson (p : Preparation) : ofJson? p.toJson.sorted = some p := by
  cases p with
  | clearCell row col => simp [ofJson?, toJson, memberOf?, lookup]
  | insertRows before count copyFrom => simp [ofJson?, toJson, memberOf?, lookup]

theorem filterOfJson?_filterJson (f : FilterInvocation) :
    filterOfJson? (filterJson f).sorted = some f := by
  have hargs : itemsOf? string? (Value.array (f.args.map .string)).sorted = some f.args :=
    itemsOf?_sorted fun s _ => string?_sorted s
  simp [filterOfJson?, filterJson, memberOf?, lookup, hargs]

namespace CellWrite

/-- The members that a cell has in any case. -/
def plainMembers (c : CellWrite) : List (String × Value) :=
  [("row", jsonNumber c.row), ("col", jsonNumber c.col), ("original_row", jsonNumber c.templateRow),
    ("original_col", jsonNumber c.templateCol), ("value", .string c.value)]

/-- The reference row as a member, if there is one. -/
def refRowMembers (c : CellWrite) : List (String × Value) :=
  (c.refRow.map fun row => ("ref_row", jsonNumber row)).toList

/-- The filters as a member, if there are any. -/
def filterMembers (c : CellWrite) : List (String × Value) :=
  if c.filters = [] then [] else [("filters", .array (c.filters.map filterJson))]

theorem toJson_eq (c : CellWrite) :
    c.toJson = .object (c.plainMembers ++ c.refRowMembers ++ c.filterMembers) := by
  simp only [toJson, plainMembers, refRowMembers, filterMembers, List.isEmpty_iff]
  cases c.refRow with
  | none => rfl
  | some row => rfl

@[simp]
theorem lookup_refRowMembers (key : String) (c : CellWrite) :
    lookup key c.refRowMembers.reverse = if key = "ref_row" then c.refRow.map jsonNumber else none := by
  cases hrefRow : c.refRow with
  | none => simp [refRowMembers, hrefRow, lookup]
  | some row => simp [refRowMembers, hrefRow, lookup, eq_comm]

@[simp]
theorem lookup_filterMembers (key : String) (c : CellWrite) :
    lookup key c.filterMembers.reverse =
      if key = "filters" ∧ c.filters ≠ [] then some (.array (c.filters.map filterJson)) else none := by
  by_cases hfilters : c.filters = []
  · simp [filterMembers, hfilters, lookup]
  · simp [filterMembers, hfilters, lookup, eq_comm]

/-- What is found in the value of a cell: the filters, the reference row, or what every cell has. -/
@[simp]
theorem member?_toJson (key : String) (c : CellWrite) :
    c.toJson.sorted.member? key = ((lookup key c.filterMembers.reverse).or
      ((lookup key c.refRowMembers.reverse).or (lookup key c.plainMembers.reverse))).map sorted := by
  rw [toJson_eq, member?_sorted_object, List.reverse_append, List.reverse_append, lookup_append,
    lookup_append]

/-- A reference row is left out where there is none. -/
theorem refRow_toJson (c : CellWrite) :
    memberOr? "ref_row" none (fun w => (natural? w).map some) c.toJson.sorted = some c.refRow := by
  cases hrefRow : c.refRow with
  | none => simp [memberOr?, hrefRow, plainMembers, lookup]
  | some row => simp [memberOr?, hrefRow]

/-- Filters are left out where there are none. -/
theorem filters_toJson (c : CellWrite) :
    memberOr? "filters" [] (itemsOf? filterOfJson?) c.toJson.sorted = some c.filters := by
  have hread : itemsOf? filterOfJson? (Value.array (c.filters.map filterJson)).sorted =
      some c.filters := itemsOf?_sorted fun f _ => filterOfJson?_filterJson f
  by_cases hfilters : c.filters = []
  · simp [memberOr?, hfilters, plainMembers, lookup]
  · simpa [memberOr?, hfilters] using hread

theorem ofJson?_toJson (c : CellWrite) : ofJson? c.toJson.sorted = some c := by
  rw [ofJson?, refRow_toJson, filters_toJson]
  simp [memberOf?, plainMembers, lookup]

end CellWrite

/-- A sheet is read back from its value. -/
theorem Sheet.ofJson?_toJson (s : Sheet) : ofJson? s.toJson.sorted = some s := by
  have hpreparations : itemsOf? Preparation.ofJson?
      (Value.array (s.preparations.map Preparation.toJson)).sorted = some s.preparations :=
    itemsOf?_sorted fun p _ => p.ofJson?_toJson
  have hcells : itemsOf? CellWrite.ofJson?
      (Value.array (s.cells.map CellWrite.toJson)).sorted = some s.cells :=
    itemsOf?_sorted fun c _ => c.ofJson?_toJson
  simp [ofJson?, toJson, memberOf?, lookup, hpreparations, hcells]

/-- The value of a document: its sheets under one key. -/
def documentJson (sheets : List Sheet) : Value := .object [("sheets", .array (sheets.map Sheet.toJson))]

theorem sheetsOfJson?_documentJson (sheets : List Sheet) :
    sheetsOfJson? (documentJson sheets).sorted = some sheets := by
  have hsheets : itemsOf? Sheet.ofJson? (Value.array (sheets.map Sheet.toJson)).sorted =
      some sheets := itemsOf?_sorted fun s _ => s.ofJson?_toJson
  simp [sheetsOfJson?, documentJson, memberOf?, lookup, hsheets]

end RoundTrip

/-! ## Numbers of 64 bits -/

/-- The numbers of a preparation. -/
def Preparation.numbers : Preparation → List Nat
  | .clearCell row col => [row, col]
  | .insertRows before count copyFrom => [before, count, copyFrom]

/-- The numbers of a cell. -/
def CellWrite.numbers (c : CellWrite) : List Nat :=
  [c.row, c.col, c.templateRow, c.templateCol] ++ c.refRow.toList

/-- The numbers of a sheet. -/
def Sheet.numbers (s : Sheet) : List Nat :=
  s.templateIndex :: (s.preparations.flatMap Preparation.numbers ++ s.cells.flatMap CellWrite.numbers)

theorem fits_jsonNumber {room n : Nat} (h : n ≤ Number.maxWord) : (jsonNumber n).Fits room := .number h

theorem Preparation.fits_toJson {p : Preparation} (h : ∀ n ∈ p.numbers, n ≤ Number.maxWord)
    (room : Nat) : p.toJson.Fits (room + 1) := by
  cases p with
  | clearCell row col =>
      simp only [numbers, List.forall_mem_cons] at h
      refine .object ?_
      simp only [List.forall_mem_cons]
      exact ⟨.string _, fits_jsonNumber h.1, fits_jsonNumber h.2.1, nofun⟩
  | insertRows before count copyFrom =>
      simp only [numbers, List.forall_mem_cons] at h
      refine .object ?_
      simp only [List.forall_mem_cons]
      exact ⟨.string _, fits_jsonNumber h.1, fits_jsonNumber h.2.1, fits_jsonNumber h.2.2.1, nofun⟩

theorem fits_filterJson (f : FilterInvocation) : (filterJson f).Fits 2 := by
  refine .object ?_
  simp only [List.forall_mem_cons]
  refine ⟨.string _, .array ?_, nofun⟩
  simp only [List.forall_mem_map]
  exact fun arg _ => .string arg

theorem CellWrite.fits_toJson {c : CellWrite} (h : ∀ n ∈ c.numbers, n ≤ Number.maxWord) :
    c.toJson.Fits 4 := by
  obtain ⟨row, col, templateRow, templateCol, value, refRow, filters⟩ := c
  simp only [numbers, List.forall_mem_append, List.forall_mem_cons] at h
  obtain ⟨⟨hrow, hcol, htemplateRow, htemplateCol, -⟩, hrefRow⟩ := h
  refine .object ?_
  simp only [List.forall_mem_append, List.forall_mem_cons]
  refine ⟨⟨⟨fits_jsonNumber hrow, fits_jsonNumber hcol, fits_jsonNumber htemplateRow,
    fits_jsonNumber htemplateCol, .string _, nofun⟩, ?_⟩, ?_⟩
  · cases refRow with
    | none => nofun
    | some refRow =>
        simp only [List.forall_mem_cons]
        exact ⟨fits_jsonNumber (hrefRow refRow List.mem_cons_self), nofun⟩
  · split
    · nofun
    · simp only [List.forall_mem_cons]
      refine ⟨.array ?_, nofun⟩
      simp only [List.forall_mem_map]
      exact fun f _ => fits_filterJson f

theorem Sheet.fits_toJson {s : Sheet} (h : ∀ n ∈ s.numbers, n ≤ Number.maxWord) : s.toJson.Fits 6 := by
  simp only [numbers, List.forall_mem_cons, List.forall_mem_append, List.forall_mem_flatMap] at h
  obtain ⟨hindex, hpreparations, hcells⟩ := h
  refine .object ?_
  simp only [List.forall_mem_cons]
  refine ⟨.string _, fits_jsonNumber hindex, .bool _, .array ?_, .array ?_, nofun⟩
  · simp only [List.forall_mem_map]
    exact fun p hp => Preparation.fits_toJson (hpreparations p hp) 3
  · simp only [List.forall_mem_map]
    exact fun c hc => CellWrite.fits_toJson (hcells c hc)

theorem fits_documentJson {sheets : List Sheet} (h : ∀ s ∈ sheets, ∀ n ∈ s.numbers, n ≤ Number.maxWord) :
    (documentJson sheets).Fits 8 := by
  refine .object ?_
  simp only [List.forall_mem_cons]
  refine ⟨.array ?_, nofun⟩
  simp only [List.forall_mem_map]
  exact fun s hs => Sheet.fits_toJson (h s hs)

/-! ## The text of a document -/

/-- The text after the opening of a document. -/
def sheetChars : Bool → List Sheet → List Char
  | _, [] => ['\n', ']', '\x7d', '\n']
  | first, s :: sheets =>
    (if first then ['\n'] else [',', '\n']) ++ (s.toJson.chars ++ sheetChars false sheets)

/-- The lines of sheets: a comma follows each but the last. -/
def sheetLines : List Sheet → List (List Char)
  | [] => []
  | [s] => [s.toJson.chars]
  | s :: t :: sheets => (s.toJson.chars ++ [',']) :: sheetLines (t :: sheets)

theorem length_sheetLines (sheets : List Sheet) : (sheetLines sheets).length = sheets.length := by
  induction sheets with
  | nil => rfl
  | cons s sheets ih =>
      cases sheets with
      | nil => rfl
      | cons t sheets => simp [sheetLines, ih]

end Output

open Output

namespace Format

theorem flatMap_sheets (first : Bool) (sheets : List Sheet) :
    (Format.json.sheets first (sheets.map .ok)).1.flatMap Segment.chars = sheetChars first sheets := by
  induction sheets generalizing first with
  | nil => rfl
  | cons s sheets ih =>
      simp only [List.map_cons, Format.sheets, Format.sheet, sheetChars, List.flatMap_append, ih,
        List.flatMap_cons, List.flatMap_nil, List.append_nil, List.append_assoc]

/-- The text of a document begins with the key of its sheets. -/
theorem toList_render (sheets : List Sheet) :
    (Format.json.render sheets).toList =
      '\x7b' :: (quote "sheets" ++ ':' :: '[' :: sheetChars true sheets) := by
  rw [render, Segment.text, String.toList_ofList, stream, List.flatMap_append, flatMap_sheets]
  rfl

/-! ## Tokens -/

theorem endsWord_sheetChars (sheets : List Sheet) : EndsWord (sheetChars false sheets) := by
  cases sheets with
  | nil => exact endsWord_cons (by decide) _
  | cons s sheets => exact endsWord_cons (by decide) _

theorem tokens_end : tokens ['\n', ']', '\x7d', '\n'] = some [.closeArray, .closeObject] := by
  rw [tokens_space (by decide), tokens_punctuation (by decide) rfl, tokens_punctuation (by decide) rfl,
    tokens_space (by decide), tokens]
  rfl

section Fits

variable {sheets : List Sheet} (h : ∀ s ∈ sheets, ∀ n ∈ s.numbers, n ≤ Number.maxWord)

include h

/-- The tokens of the sheets after the first, a comma before each. -/
theorem tokens_later : tokens (sheetChars false sheets) =
    some ((sheets.flatMap fun s => .comma :: s.toJson.tokens) ++ [.closeArray, .closeObject]) := by
  induction sheets with
  | nil => exact tokens_end
  | cons s sheets ih =>
      obtain ⟨hs, hsheets⟩ := List.forall_mem_cons.1 h
      have hlexes : Lexes s.toJson := tokens_chars (Sheet.fits_toJson hs)
      simp only [sheetChars, Bool.false_eq_true, if_false, List.cons_append, List.nil_append]
      rw [tokens_punctuation (by decide) rfl, tokens_space (by decide),
        hlexes _ (endsWord_sheetChars sheets), ih hsheets]
      simp

/-- The tokens of the sheets, with the ends of the containers around them. -/
theorem tokens_sheets : tokens (sheetChars true sheets) =
    some (Value.itemTokens (sheets.map Sheet.toJson) ++ [.closeArray, .closeObject]) := by
  cases sheets with
  | nil => exact tokens_end
  | cons s sheets =>
      obtain ⟨hs, hsheets⟩ := List.forall_mem_cons.1 h
      have hlexes : Lexes s.toJson := tokens_chars (Sheet.fits_toJson hs)
      simp only [sheetChars, if_true, List.cons_append, List.nil_append]
      rw [tokens_space (by decide), hlexes _ (endsWord_sheetChars sheets), tokens_later hsheets,
        List.map_cons, Value.itemTokens_cons]
      simp [List.flatMap_map]

/-- The tokens of a document are those of its value. -/
theorem tokens_render :
    tokens (Format.json.render sheets).toList = some (documentJson sheets).tokens := by
  rw [toList_render, tokens_punctuation (by decide) rfl, tokens_quote,
    tokens_punctuation (by decide) rfl, tokens_punctuation (by decide) rfl, tokens_sheets h]
  simp [documentJson, Value.tokens, Value.memberTokens]

end Fits

/-! ## Lines -/

/-- Sheets from one sheet on, line by line, and what comes after them. -/
theorem cut_sheets (s : Sheet) (sheets : List Sheet) :
    cut '\n' (s.toJson.chars ++ sheetChars false sheets) =
      sheetLines (s :: sheets) ++ ["]\x7d".toList, []] := by
  have hsheet : '\n' ∉ s.toJson.chars := newline_not_mem_chars s.toJson
  induction sheets generalizing s with
  | nil =>
      rw [sheetChars, cut_append hsheet]
      rfl
  | cons t sheets ih =>
      have hline : '\n' ∉ s.toJson.chars ++ [','] := by simp [hsheet]
      have htext : s.toJson.chars ++ sheetChars false (t :: sheets) =
          (s.toJson.chars ++ [',']) ++ '\n' :: (t.toJson.chars ++ sheetChars false sheets) := by
        simp [sheetChars]
      rw [htext, cut_append hline, ih t (newline_not_mem_chars t.toJson), sheetLines, List.cons_append]

/-- The lines of a document: its opening, the sheets, and its end. -/
theorem cut_render (sheets : List Sheet) :
    cut '\n' (Format.json.render sheets).toList =
      "\x7b\"sheets\":[".toList :: (sheetLines sheets ++ ["]\x7d".toList, []]) := by
  have hopening : '\n' ∉ "\x7b\"sheets\":[".toList := by decide
  have htext : (Format.json.render sheets).toList =
      "\x7b\"sheets\":[".toList ++ sheetChars true sheets := toList_render sheets
  rw [htext]
  cases sheets with
  | nil =>
      rw [sheetChars, cut_append hopening]
      rfl
  | cons s sheets =>
      simp only [sheetChars, if_true, List.cons_append, List.nil_append]
      rw [cut_append hopening, cut_sheets s sheets]

theorem read?_render_json {sheets : List Sheet} (h : ∀ s ∈ sheets, ∀ n ∈ s.numbers, n ≤ Number.maxWord) :
    Value.read? (Format.json.render sheets) = some (documentJson sheets).sorted :=
  Value.read?_of_tokens (fits_documentJson h) (by decide) (tokens_render h)

/--
The JSON document of sheets is a JSON text, from which the same sheets are read in the same order. It has a
line for each sheet, between the line that opens it and the line that ends it.
-/
theorem render_json_readBack {sheets : List Sheet}
    (h : ∀ s ∈ sheets, ∀ n ∈ s.numbers, n ≤ Number.maxWord) :
    let text := Format.json.render sheets
    (∃ v, Value.read? text = some v ∧ sheetsOfJson? v = some sheets) ∧
      cut '\n' text.toList =
        "\x7b\"sheets\":[".toList :: (sheetLines sheets ++ ["]\x7d".toList, []]) ∧
      (sheetLines sheets).length = sheets.length := by
  intro text
  refine ⟨⟨_, read?_render_json h, sheetsOfJson?_documentJson sheets⟩, cut_render sheets, ?_⟩
  exact length_sheetLines sheets

/-- Quotes, backslashes and line ends in the texts of two sheets do no harm. -/
theorem render_json_readBack_escaped :
    let sheets : List Sheet :=
      [{ name := "A \"B\" \\", templateIndex := 0, multiple := true
         preparations := [.clearCell 1 2, .insertRows 3 2 2]
         cells := [⟨2, 1, 1, 1, "line 1\nline 2\x01", some 1, [⟨"wrap", ["\"", ","]⟩]⟩,
           ⟨7, 0, 5, 0, "日本", none, []⟩] },
       { name := "", templateIndex := 1, multiple := false, preparations := [], cells := [] }]
    (∀ s ∈ sheets, ∀ n ∈ s.numbers, n ≤ Number.maxWord) ∧
      (∃ v, Value.read? (Format.json.render sheets) = some v ∧ sheetsOfJson? v = some sheets) ∧
      (cut '\n' (Format.json.render sheets).toList).length = 5 := by
  intro sheets
  have hnumbers : ∀ s ∈ sheets, ∀ n ∈ s.numbers, n ≤ Number.maxWord := by decide
  obtain ⟨hread, hlines, -⟩ := render_json_readBack hnumbers
  refine ⟨hnumbers, hread, ?_⟩
  rw [hlines]
  rfl

end Format

end SheetFill
