import SheetFill.Proofs.Output.ReadBack
import SheetFill.Proofs.Xml.Elements

/-!
# Reading an XML document back

The XML document of a list of sheets is read back to the same sheets in the same order, so no two lists of
sheets have the same document. Whatever characters there are in names, values and arguments, they are not
taken for markup, and blanks in them are not taken for indentation.

## Main definitions

* `Preparation.ofXml?`, `filterOfXml?`, `CellWrite.ofXml?`, `Sheet.ofXml?` — what is read from elements.
* `holdsText` — the elements with texts.
* `sheetsOfXml?` — what is read from a document.

## Main results

* `Sheet.ofXml?_toXml` — a sheet is read back from its element.
* `Sheet.regular_toXml` — the element of a sheet can be told from its tags.
* `Format.render_xml_readBack` — a document is read back.
-/

namespace SheetFill

open Cell Text Xml

namespace Output

/-! ## Reading elements -/

/-- The value of an attribute. -/
def attribute? (name : String) (attributes : List Attribute) : Option String :=
  (attributes.find? fun a => a.name == name).map Attribute.value

/-- The number of which this is the decimal form. -/
def decimal? (s : String) : Option Nat :=
  if s.toList.isEmpty || !s.toList.all Char.isDigit then none else some (digitsValue s.toList)

/-- An attribute whose value is a number. -/
def numberAttribute? (name : String) (attributes : List Attribute) : Option Nat :=
  (attribute? name attributes).bind decimal?

/-- A number that may be missing. -/
def numberAttributeOr? (name : String) (attributes : List Attribute) : Option (Option Nat) :=
  match attribute? name attributes with
  | none => some none
  | some value => (decimal? value).map some

/-- A truth value. -/
def truth? (s : String) : Option Bool :=
  if s = "true" then some true else if s = "false" then some false else none

/-- The attributes of an element of some name without content. -/
def emptyOf? (name : String) : Element → Option (List Attribute)
  | .empty other attributes => if other = name then some attributes else none
  | _ => none

/-- The text of an element of some name. -/
def textOf? (name : String) : Element → Option String
  | .text other _ content => if other = name then some content else none
  | _ => none

/-- The attributes and the elements of an element of some name. -/
def parentOf? (name : String) : Element → Option (List Attribute × List Element)
  | .parent other attributes children => if other = name then some (attributes, children) else none
  | _ => none

/-- The preparation of an element, by the name of the element. -/
def Preparation.ofXml? (e : Element) : Option Preparation :=
  match emptyOf? "clear-cell" e with
  | some attributes => do
    let row ← numberAttribute? "row" attributes
    let col ← numberAttribute? "col" attributes
    return .clearCell row col
  | none => do
    let attributes ← emptyOf? "insert-rows" e
    let before ← numberAttribute? "before" attributes
    let count ← numberAttribute? "count" attributes
    let copyFrom ← numberAttribute? "copy-from" attributes
    return .insertRows before count copyFrom

/-- The filter invocation of an element, which has no content where there are no arguments. -/
def filterOfXml? (e : Element) : Option FilterInvocation :=
  match emptyOf? "filter" e with
  | some attributes => (attribute? "name" attributes).map fun name => ⟨name, []⟩
  | none => do
    let (attributes, children) ← parentOf? "filter" e
    let name ← attribute? "name" attributes
    let args ← children.mapM (textOf? "arg")
    return { name, args }

/-- The cell of an element: its value first, then its filters. -/
def CellWrite.ofXml? (e : Element) : Option CellWrite := do
  let (attributes, children) ← parentOf? "cell" e
  let row ← numberAttribute? "row" attributes
  let col ← numberAttribute? "col" attributes
  let templateRow ← numberAttribute? "original-row" attributes
  let templateCol ← numberAttribute? "original-col" attributes
  let refRow ← numberAttributeOr? "ref-row" attributes
  let value ← children.head?.bind (textOf? "value")
  let filters ← children.tail.mapM filterOfXml?
  return { row, col, templateRow, templateCol, value, refRow, filters }

/-- The sheet of an element: its preparations, then its cells. -/
def Sheet.ofXml? (e : Element) : Option Sheet := do
  let (attributes, children) ← parentOf? "sheet" e
  let name ← attribute? "name" attributes
  let templateIndex ← numberAttribute? "template" attributes
  let multiple ← (attribute? "multiple" attributes).bind truth?
  match children with
  | [priors, cells] =>
    let (_, preparations) ← parentOf? "priors" priors
    let preparations ← preparations.mapM Preparation.ofXml?
    let (_, cells) ← parentOf? "cells" cells
    let cells ← cells.mapM CellWrite.ofXml?
    return { name, templateIndex, multiple, preparations, cells }
  | _ => none

/-- The sheets of a workbook element. -/
def sheetsOfElement? (e : Element) : Option (List Sheet) := do
  let (_, sheets) ← parentOf? "workbook" e
  sheets.mapM Sheet.ofXml?

/-- The names of the elements with texts. -/
def holdsText (name : String) : Bool := name == "value" || name == "arg"

/-- The sheets of a document. -/
def sheetsOfXml? (document : String) : Option (List Sheet) :=
  match elements? holdsText document.toList with
  | some [e] => sheetsOfElement? e
  | _ => none

/-! ## What is written is read -/

@[simp]
theorem decimal?_decimal (n : Nat) : decimal? (decimal n) = some n := by
  have hdigits : (decimalDigits n).all Char.isDigit = true :=
    List.all_eq_true.2 fun c hc => isDigit_of_mem_decimalDigits hc
  simp [decimal?, decimal, String.toList_ofList, decimalDigits_ne_nil, hdigits, digitsValue_decimalDigits]

@[simp]
theorem attribute?_nil (name : String) : attribute? name [] = none := rfl

/-- The first attribute of a name is found. -/
@[simp]
theorem attribute?_cons (name : String) (a : Attribute) (attributes : List Attribute) :
    attribute? name (a :: attributes) =
      if a.name = name then some a.value else attribute? name attributes := by
  by_cases h : a.name = name
  · simp [attribute?, h]
  · simp [attribute?, h]

theorem Preparation.ofXml?_toXml (p : Preparation) : ofXml? p.toXml = some p := by
  cases p with
  | clearCell row col => simp [ofXml?, toXml, emptyOf?, numberAttribute?, Attribute.number]
  | insertRows before count copyFrom =>
      simp [ofXml?, toXml, emptyOf?, numberAttribute?, Attribute.number]

theorem filterOfXml?_filterXml (f : FilterInvocation) : filterOfXml? (filterXml f) = some f := by
  obtain ⟨name, args⟩ := f
  cases args with
  | nil => simp [filterOfXml?, filterXml, emptyOf?]
  | cons arg args =>
      have hxml : filterXml ⟨name, arg :: args⟩ =
          .parent "filter" [⟨"name", name⟩] ((arg :: args).map (.text "arg" [])) := rfl
      have hargs : (arg :: args).mapM (textOf? "arg" ∘ Element.text "arg" []) = some (arg :: args) :=
        mapM_eq_some_self fun _ _ => rfl
      rw [hxml]
      generalize arg :: args = args at hargs
      simp [filterOfXml?, emptyOf?, parentOf?, hargs]

/-- The element of a cell, with the reference row apart from the attributes that every cell has. -/
theorem CellWrite.toXml_eq (c : CellWrite) :
    c.toXml = .parent "cell"
      ([.number "row" c.row, .number "col" c.col, .number "original-row" c.templateRow,
        .number "original-col" c.templateCol] ++ (c.refRow.map (Attribute.number "ref-row")).toList)
      (.text "value" [] c.value :: c.filters.map filterXml) := by
  rw [toXml]
  cases c.refRow with
  | none => rfl
  | some row => rfl

theorem CellWrite.ofXml?_toXml (c : CellWrite) : ofXml? c.toXml = some c := by
  have hfilters : c.filters.mapM (filterOfXml? ∘ filterXml) = some c.filters :=
    mapM_eq_some_self fun f _ => filterOfXml?_filterXml f
  obtain ⟨row, col, templateRow, templateCol, value, refRow, filters⟩ := c
  rw [toXml_eq]
  cases refRow with
  | none =>
      simp [ofXml?, parentOf?, textOf?, numberAttribute?, numberAttributeOr?, Attribute.number,
        hfilters]
  | some row =>
      simp [ofXml?, parentOf?, textOf?, numberAttribute?, numberAttributeOr?, Attribute.number,
        hfilters]

/-- A sheet is read back from its element. -/
theorem Sheet.ofXml?_toXml (s : Sheet) : ofXml? s.toXml = some s := by
  have hpreparations : s.preparations.mapM (Preparation.ofXml? ∘ Preparation.toXml) =
      some s.preparations := mapM_eq_some_self fun p _ => p.ofXml?_toXml
  have hcells : s.cells.mapM (CellWrite.ofXml? ∘ CellWrite.toXml) = some s.cells :=
    mapM_eq_some_self fun c _ => c.ofXml?_toXml
  have hmultiple : truth? (if s.multiple then "true" else "false") = some s.multiple := by
    cases s.multiple with
    | false => rfl
    | true => rfl
  simp [ofXml?, toXml, parentOf?, numberAttribute?, Attribute.number, hpreparations, hcells, hmultiple]

/-- The element of a document, with the elements of its sheets. -/
def workbookXml (sheets : List Sheet) : Element := .parent "workbook" [] (sheets.map Sheet.toXml)

theorem sheetsOfElement?_workbookXml (sheets : List Sheet) :
    sheetsOfElement? (workbookXml sheets) = some sheets := by
  have hsheets : sheets.mapM (Sheet.ofXml? ∘ Sheet.toXml) = some sheets :=
    mapM_eq_some_self fun s _ => s.ofXml?_toXml
  simp [sheetsOfElement?, workbookXml, parentOf?, hsheets]

/-! ## Names -/

theorem isName_of_names {attributes : List Attribute} (names : List String)
    (hnames : attributes.map Attribute.name = names) (h : ∀ name ∈ names, IsName name) :
    ∀ a ∈ attributes, IsName a.name := by
  intro a ha
  exact h a.name (hnames ▸ List.mem_map_of_mem ha)

theorem Preparation.regular_toXml (p : Preparation) : p.toXml.Regular holdsText := by
  cases p with
  | clearCell row col => exact .empty (by decide) (isName_of_names ["row", "col"] rfl (by decide))
  | insertRows before count copyFrom =>
      exact .empty (by decide) (isName_of_names ["before", "count", "copy-from"] rfl (by decide))

theorem regular_filterXml (f : FilterInvocation) : (filterXml f).Regular holdsText := by
  have hname : ∀ a ∈ [(⟨"name", f.name⟩ : Attribute)], IsName a.name :=
    isName_of_names ["name"] rfl (by decide)
  rw [filterXml]
  split
  · exact .empty (by decide) hname
  · refine .parent (by decide) hname rfl ?_
    rw [List.forall_mem_map]
    exact fun arg _ => .text (by decide) (List.forall_mem_nil _) rfl arg

theorem CellWrite.regular_toXml (c : CellWrite) : c.toXml.Regular holdsText := by
  rw [toXml_eq]
  refine .parent (by decide) (List.forall_mem_append.2 ⟨?_, ?_⟩) rfl (List.forall_mem_cons.2 ⟨?_, ?_⟩)
  · exact isName_of_names ["row", "col", "original-row", "original-col"] rfl (by decide)
  · cases c.refRow with
    | none => exact List.forall_mem_nil _
    | some row => exact isName_of_names ["ref-row"] rfl (by decide)
  · exact .text (by decide) (List.forall_mem_nil _) rfl c.value
  · rw [List.forall_mem_map]
    exact fun f _ => regular_filterXml f

/-- The element of a sheet can be told from its tags. -/
theorem Sheet.regular_toXml (s : Sheet) : s.toXml.Regular holdsText := by
  have hpreparations : (Element.parent "priors" [] (s.preparations.map Preparation.toXml)).Regular
      holdsText := by
    refine .parent (by decide) (List.forall_mem_nil _) rfl ?_
    rw [List.forall_mem_map]
    exact fun p _ => p.regular_toXml
  have hcells : (Element.parent "cells" [] (s.cells.map CellWrite.toXml)).Regular holdsText := by
    refine .parent (by decide) (List.forall_mem_nil _) rfl ?_
    rw [List.forall_mem_map]
    exact fun c _ => c.regular_toXml
  refine .parent (by decide) (isName_of_names ["name", "template", "multiple"] rfl (by decide)) rfl ?_
  exact List.forall_mem_cons.2 ⟨hpreparations, List.forall_mem_singleton.2 hcells⟩

theorem regular_workbookXml (sheets : List Sheet) : (workbookXml sheets).Regular holdsText := by
  refine .parent (by decide) (List.forall_mem_nil _) rfl ?_
  rw [List.forall_mem_map]
  exact fun s _ => s.regular_toXml

end Output

open Output

namespace Format

/-- The declaration of a document, after its question mark. -/
def declaration : List Char := "xml version=\"1.0\" encoding=\"UTF-8\"?".toList

theorem flatMap_xmlSheets (first : Bool) (sheets : List Sheet) :
    (Format.xml.sheets first (sheets.map .ok)).1.flatMap Segment.chars =
      Element.listChars 1 (sheets.map Sheet.toXml) ++ "\n</workbook>\n".toList := by
  induction sheets generalizing first with
  | nil => rfl
  | cons s sheets ih =>
      simp only [List.map_cons, Format.sheets, Format.sheet, List.flatMap_append, ih,
        List.flatMap_cons, List.flatMap_nil, List.append_nil, List.append_assoc, Element.listChars]

/-- A document is a declaration and an element. -/
theorem toList_render_xml (sheets : List Sheet) :
    (Format.xml.render sheets).toList =
      '<' :: '?' :: (declaration ++ '>' :: ((workbookXml sheets).chars 0 ++ ['\n'])) := by
  have hopening : (Format.xml.opening).flatMap Segment.chars =
      '<' :: '?' :: (declaration ++ '>' :: "\n<workbook>".toList) := by decide
  have helement : (workbookXml sheets).chars 0 = "\n<workbook>".toList ++
      (Element.listChars 1 (sheets.map Sheet.toXml) ++ "\n</workbook>".toList) := by
    rw [workbookXml, Element.chars]
    rfl
  rw [render, Segment.text, String.toList_ofList, stream, List.flatMap_append, flatMap_xmlSheets,
    hopening, helement]
  simp

theorem sheetsOfXml?_render (sheets : List Sheet) : sheetsOfXml? (Format.xml.render sheets) = some sheets := by
  have hbody : BracketFree declaration := by decide
  have hafter : isSpacing ['\n'] = true := rfl
  rw [sheetsOfXml?, toList_render_xml, elements?_chars (regular_workbookXml sheets) hbody 0 hafter]
  exact sheetsOfElement?_workbookXml sheets

/--
The XML document of sheets is read back to the same sheets in the same order, and different sheets have
different documents.
-/
theorem render_xml_readBack :
    (∀ sheets : List Sheet, sheetsOfXml? (Format.xml.render sheets) = some sheets) ∧
      Function.Injective Format.xml.render := by
  refine ⟨sheetsOfXml?_render, fun sheets others h => ?_⟩
  have hsame : some sheets = some others := by rw [← sheetsOfXml?_render sheets, ← sheetsOfXml?_render others, h]
  exact Option.some.inj hsame

end Format

end SheetFill
