import SheetFill.Proofs.Cell.Cuts
import SheetFill.Proofs.Cell.Faults
import SheetFill.Settings

/-!
# Writing cells

A cell is written from the text of its body and, for each filter, a name and the texts of the arguments. Reading it
undoes this, whatever stands inside the references, as long as each text closes its own markers and keeps the
characters that separate it from its neighbours inside its spans.

Closed texts can be put behind each other without one of them reaching into the next: the scan of the whole is the
scans of the parts. So what is joined by a separator falls apart at it, at both levels, filters and arguments.

## Main definitions

* `IsClosed`, `Separable` — texts that end no span of a neighbour, and that a separator does not cut.
* `FilterText`, `formulaText` — a filter to be written, and the text of a cell.

## Main results

* `scan_append` — the scan of a closed text and of what comes behind it.
* `splitOutside_joinWith` — separable texts that are joined are the parts.
* `Formula.parse_formulaText` — a cell is read as it was written.
-/

namespace SheetFill.Cell

open Text

/-! ## Closed texts -/

/-- Does the character stand in the text outside the spans? -/
def StandsOutside (c : Char) (cs : List Char) : Prop := ∃ i, cs[i]? = some c ∧ Outside cs i

/-- A text in which every marker belongs to a span. -/
def IsClosed (cs : List Char) : Prop := ∀ mode : Mode, ¬ StandsOutside mode.marker cs

theorem standsOutside_iff {c : Char} {cs : List Char} : StandsOutside c cs ↔ .literal c ∈ scan cs := by
  simp only [StandsOutside, outside_iff]
  constructor
  · rintro ⟨i, front, back, hscan, -⟩
    rw [hscan]
    exact List.mem_append_right _ List.mem_cons_self
  · intro h
    obtain ⟨front, back, hscan⟩ := List.append_of_mem h
    exact ⟨_, front, back, hscan, rfl⟩

instance (c : Char) (cs : List Char) : Decidable (StandsOutside c cs) :=
  decidable_of_iff _ standsOutside_iff.symm

theorem isClosed_iff {cs : List Char} : IsClosed cs ↔ ¬ StandsOutside '$' cs ∧ ¬ StandsOutside '#' cs :=
  ⟨fun h => ⟨h .plain, h .group⟩, fun h mode => match mode with
    | .plain => h.1
    | .group => h.2⟩

instance (cs : List Char) : Decidable (IsClosed cs) := decidable_of_iff _ isClosed_iff.symm

/-- Without markers that are not closed, pieces keep to themselves. -/
theorem IsScan.append {ps qs : List Piece} (hps : IsScan ps) (hqs : IsScan qs)
    (hclosed : ∀ mode : Mode, .literal mode.marker ∉ ps) : IsScan (ps ++ qs) := by
  induction hps with
  | nil => exact hqs
  | literal _ _ ih =>
      refine .literal (ih fun mode hmem => hclosed mode (List.mem_cons_of_mem _ hmem)) fun mode hc => ?_
      exact absurd (hc ▸ List.mem_cons_self) (hclosed mode)
  | span _ hmarker hline ih =>
      exact .span (ih fun mode hmem => hclosed mode (List.mem_cons_of_mem _ hmem)) hmarker hline

/-- What comes behind a closed text is read on its own. -/
theorem scan_append {cs : List Char} (h : IsClosed cs) (ds : List Char) :
    scan (cs ++ ds) = scan cs ++ scan ds := by
  have hscan := (isScan_scan cs).append (isScan_scan ds) fun mode hmem => h mode (standsOutside_iff.2 hmem)
  rw [← hscan.scan_eq, List.flatMap_append, scan_chars, scan_chars]

theorem standsOutside_append {c : Char} {cs : List Char} (h : IsClosed cs) (ds : List Char) :
    StandsOutside c (cs ++ ds) ↔ StandsOutside c cs ∨ StandsOutside c ds := by
  rw [standsOutside_iff, standsOutside_iff, standsOutside_iff, scan_append h, List.mem_append]

/-- A text without markers is literal. -/
theorem scan_of_not_mem {cs : List Char} (h : ∀ mode : Mode, mode.marker ∉ cs) :
    scan cs = cs.map .literal := by
  induction cs with
  | nil => rw [scan, List.map_nil]
  | cons c cs ih =>
      rw [scan_literal fun mode hc => absurd (hc ▸ List.mem_cons_self) (h mode), List.map_cons,
        ih fun mode hmem => h mode (List.mem_cons_of_mem _ hmem)]

/-! ## Texts between separators -/

section Separators

variable {sep : Char}

/-- A text that a separator does not cut, and that is read in the same way wherever it stands. -/
structure Separable (sep : Char) (cs : List Char) : Prop where
  closed : IsClosed cs
  uncut : ¬ StandsOutside sep cs

theorem separable_of_not_mem {cs : List Char} (h : ∀ mode : Mode, mode.marker ∉ cs) (hsep : sep ∉ cs) :
    Separable sep cs := by
  have hmem {c : Char} (hc : StandsOutside c cs) : c ∈ cs := by
    rw [standsOutside_iff, scan_of_not_mem h] at hc
    obtain ⟨d, hd, heq⟩ := List.mem_map.1 hc
    cases heq
    exact hd
  exact ⟨fun mode hmode => h mode (hmem hmode), fun hout => hsep (hmem hout)⟩

theorem Separable.append {cs ds : List Char} (hcs : Separable sep cs) (hds : Separable sep ds) :
    Separable sep (cs ++ ds) where
  closed := fun mode hout =>
    ((standsOutside_append hcs.closed ds).1 hout).elim (hcs.closed mode) (hds.closed mode)
  uncut := fun hout => ((standsOutside_append hcs.closed ds).1 hout).elim hcs.uncut hds.uncut

theorem splitPieces_of_not_mem {pieces : List Piece} (h : .literal sep ∉ pieces) :
    splitPieces sep pieces = [pieces] := by
  induction pieces with
  | nil => rfl
  | cons p ps ih =>
      rw [List.mem_cons, not_or] at h
      rw [splitPieces, if_neg (Ne.symm h.1), ih h.2]

theorem splitOutside_of_separable {cs : List Char} (h : Separable sep cs) :
    splitOutside sep cs = [cs] := by
  rw [splitOutside, splitPieces_of_not_mem fun hmem => h.uncut (standsOutside_iff.2 hmem), List.map_singleton,
    scan_chars]

/-- The first part ends at the first separator. -/
theorem splitOutside_append {cs : List Char} (h : Separable sep cs) (hsep : ∀ mode : Mode, sep ≠ mode.marker)
    (rest : List Char) : splitOutside sep (cs ++ sep :: rest) = cs :: splitOutside sep rest := by
  rw [splitOutside, scan_append h.closed, scan_literal fun mode hc => absurd hc (hsep mode),
    splitPieces_append, splitPieces_of_not_mem fun hmem => h.uncut (standsOutside_iff.2 hmem),
    List.singleton_append, List.map_cons, scan_chars, splitOutside]

theorem splitOutside_joinWith {texts : List (List Char)} (hne : texts ≠ [])
    (hsep : ∀ mode : Mode, sep ≠ mode.marker) (h : ∀ text ∈ texts, Separable sep text) :
    splitOutside sep (joinWith [sep] texts) = texts := by
  induction texts with
  | nil => exact absurd rfl hne
  | cons text texts ih =>
      rw [List.forall_mem_cons] at h
      cases texts with
      | nil => exact splitOutside_of_separable h.1
      | cons next texts =>
          have hrest := ih (List.cons_ne_nil _ _) h.2
          rw [joinWith_cons (List.cons_ne_nil _ _), List.append_assoc, List.singleton_append,
            splitOutside_append h.1 hsep, hrest]

/-- Separable texts stay so with something separable between them. -/
theorem separable_joinWith {between : List Char} (hbetween : Separable sep between)
    {texts : List (List Char)} (h : ∀ text ∈ texts, Separable sep text) :
    Separable sep (joinWith between texts) := by
  induction texts with
  | nil => exact separable_of_not_mem (fun _ => List.not_mem_nil) List.not_mem_nil
  | cons text texts ih =>
      rw [List.forall_mem_cons] at h
      cases texts with
      | nil => exact h.1
      | cons next texts =>
          rw [joinWith_cons (List.cons_ne_nil _ _)]
          exact (h.1.append hbetween).append (ih h.2)

end Separators

/-! ## Filters -/

/-- A filter to be written: its name and the texts of its arguments. -/
structure FilterText where
  name : String
  args : List String

namespace FilterText

/-- The text between the parentheses. -/
def inner (f : FilterText) : List Char := joinWith [',', ' '] (f.args.map String.toList)

/-- The text of the filter. -/
def chars (f : FilterText) : List Char := f.name.toList ++ '(' :: (f.inner ++ [')'])

/-- A text that can be written for an argument, between filters that `sep` separates. -/
structure IsArgument (sep : Char) (arg : String) : Prop where
  nonempty : arg ≠ ""
  trimmed : trim arg.toList = arg.toList
  closed : IsClosed arg.toList
  separator : ¬ StandsOutside sep arg.toList
  comma : ¬ StandsOutside ',' arg.toList
  readable : ∃ b, Body.parse arg = .ok b

/-- A filter that can be written behind `sep`. -/
structure IsWritable (sep : Char) (f : FilterText) : Prop where
  nonempty : f.name ≠ ""
  nameChars : ∀ c ∈ f.name.toList, FilterCall.isNameChar c = true
  separator : sep ∉ f.name.toList
  args : ∀ arg ∈ f.args, IsArgument sep arg

/-- What a filter is to be read as: its name, and the bodies of its arguments. -/
def Reads (f : FilterText) (call : FilterCall) : Prop :=
  call.name = f.name ∧ List.Forall₂ (fun arg b => Body.parse arg = .ok b) f.args call.args

end FilterText

/-- The text of a cell with filters. -/
def formulaText (sep : Char) (body : String) (filters : List FilterText) : String :=
  String.ofList (body.toList ++ filters.flatMap fun f => sep :: f.chars)

/-! ### Characters of a name -/

theorem isAlphanumeric_of_isBlank {c : Char} (h : isBlank c = true) : isAlphanumeric c = false := by
  obtain ⟨range, hmem, hlo, hhi⟩ := exists_of_inRanges h
  -- the tables have no code point in common: there are few blanks, and each is looked up
  have hapart : ∀ range ∈ blankRanges, ∀ k ≤ range.2 - range.1,
      inRanges alphanumericRanges (range.1 + k) = false := by decide +kernel
  have hfound := hapart range hmem (c.toNat - range.1) (by omega)
  rwa [Nat.add_sub_cancel' hlo] at hfound

theorem isBlank_of_isNameChar {c : Char} (h : FilterCall.isNameChar c = true) : isBlank c = false := by
  rw [Bool.eq_false_iff]
  intro hblank
  rw [FilterCall.isNameChar, isAlphanumeric_of_isBlank hblank, Bool.false_or, beq_iff_eq] at h
  subst h
  cases hblank

theorem marker_not_isNameChar (mode : Mode) : FilterCall.isNameChar mode.marker = false := by
  cases mode <;> decide +kernel

/-! ### Reading a filter -/

namespace FilterText

variable {sep : Char} {f : FilterText}

/-- An argument has a character that is no blank. -/
theorem IsArgument.not_allBlank {arg : String} (h : IsArgument sep arg) : ¬ allBlank arg.toList = true := by
  intro hblank
  have hnil : arg.toList = [] := h.trimmed.symm.trans (trim_eq_nil_of_allBlank hblank)
  exact h.nonempty (String.toList_eq_nil_iff.1 hnil)

/-- Between the commas stand the arguments, all but the first one with a blank before them. -/
theorem inner_eq {arg : String} {args : List String} (h : f.args = arg :: args) :
    f.inner = joinWith [','] (arg.toList :: args.map fun next => ' ' :: next.toList) := by
  rw [inner, h, List.map_cons, joinWith_cons_eq_flatMap, joinWith_cons_eq_flatMap, List.flatMap_map,
    List.flatMap_map]
  rfl

theorem parseArgs_inner (h : ∀ arg ∈ f.args, IsArgument sep arg) :
    FilterCall.parseArgs f.inner = f.args.mapM Body.parse := by
  cases hargs : f.args with
  | nil =>
      rw [inner, hargs]
      rfl
  | cons arg args =>
      rw [hargs, List.forall_mem_cons] at h
      have hspace : Separable ',' [' '] :=
        separable_of_not_mem (fun mode => by cases mode <;> decide) (by decide)
      have hparts : ∀ text ∈ arg.toList :: args.map fun next => ' ' :: next.toList, Separable ',' text := by
        rw [List.forall_mem_cons, List.forall_mem_map]
        exact ⟨⟨h.1.closed, h.1.comma⟩, fun next hnext =>
          hspace.append ⟨(h.2 next hnext).closed, (h.2 next hnext).comma⟩⟩
      have hblank : ¬ allBlank f.inner = true := by
        intro hall
        rw [inner_eq hargs, joinWith_cons_eq_flatMap, allBlank, List.all_append, Bool.and_eq_true] at hall
        exact h.1.not_allBlank hall.1
      have htrimmed : (arg.toList :: args.map fun next => ' ' :: next.toList).map
          (fun text => String.ofList (trim text)) = arg :: args := by
        have hnext : ∀ next ∈ args, String.ofList (trim (' ' :: next.toList)) = id next := by
          intro next hmem
          rw [trim_cons_of_isBlank (by decide), (h.2 next hmem).trimmed, String.ofList_toList]
          rfl
        rw [List.map_cons, h.1.trimmed, String.ofList_toList, List.map_map]
        exact congrArg (arg :: ·) ((List.map_congr_left hnext).trans (List.map_id args))
      rw [FilterCall.parseArgs, if_neg hblank, inner_eq hargs,
        splitOutside_joinWith (List.cons_ne_nil _ _) (fun mode => by cases mode <;> decide) hparts,
        ← htrimmed, List.mapM_map]
      rfl

/-- A name ends at the parenthesis behind it, and there are no blanks around the filter. -/
theorem IsWritable.trim_chars (h : f.IsWritable sep) : trim f.chars = f.chars := by
  refine trim_eq_self (fun c hc => ?_) fun c hc => ?_
  · rw [chars, List.head?_append_of_ne_nil _ fun hnil => h.nonempty (String.toList_eq_nil_iff.1 hnil)] at hc
    exact isBlank_of_isNameChar (h.nameChars c (List.mem_of_head? hc))
  · rw [chars, ← List.cons_append, ← List.append_assoc, List.getLast?_concat] at hc
    cases hc
    decide

/-- A filter is read as it was written. -/
theorem IsWritable.parse_chars (h : f.IsWritable sep) : FilterCall.parse f.chars =
    (f.args.mapM Body.parse).map fun args => ⟨f.name, args⟩ := by
  have hname : f.chars.takeWhile FilterCall.isNameChar = f.name.toList := by
    rw [chars, List.takeWhile_append_of_pos h.nameChars, List.takeWhile_cons_of_neg (by decide +kernel),
      List.append_nil]
  have hrest : f.chars.dropWhile FilterCall.isNameChar = '(' :: (f.inner ++ [')']) := by
    rw [chars, List.dropWhile_append_of_pos h.nameChars, List.dropWhile_cons_of_neg (by decide +kernel)]
  have hopen : trimStart ('(' :: (f.inner ++ [')'])) = '(' :: (f.inner ++ [')']) :=
    trimStart_eq_self fun c hc => by
      cases hc
      decide
  have hinner : FilterCall.unparenthesize ('(' :: (f.inner ++ [')'])) = some f.inner := by
    rw [FilterCall.unparenthesize, List.getLast?_concat, if_pos rfl, List.dropLast_concat]
  have hnonempty : ¬ f.name.toList.isEmpty = true := fun hnil =>
    h.nonempty (String.toList_eq_nil_iff.1 (List.isEmpty_iff.1 hnil))
  simp only [FilterCall.parse, h.trim_chars, hname, hrest, hopen, hinner, if_neg hnonempty,
    parseArgs_inner h.args, String.ofList_toList]
  cases f.args.mapM Body.parse <;> rfl

end FilterText

/-! ### Filter separators -/

theorem not_mem_reserved {sep : Char} (h : Settings.isSeparator sep = true) :
    sep ∉ Settings.reservedChars ∧ isBlank sep = false := by
  rw [Settings.isSeparator, Bool.not_eq_true', Bool.or_eq_false_iff] at h
  exact ⟨fun hmem => Bool.eq_false_iff.1 h.2 (List.contains_iff_mem.2 hmem), h.1⟩

theorem isSeparator_of_validate {s t : Settings} (h : s.validate = .ok t) :
    Settings.isSeparator t.separator = true := by
  unfold Settings.validate at h
  split at h
  · cases h
  · next hsep =>
      split at h
      · cases h
      · split at h
        · cases h
        · cases h
          simpa using hsep

/-- Filter separators are no markers. -/
theorem ne_marker {sep : Char} (h : Settings.isSeparator sep = true) (mode : Mode) : sep ≠ mode.marker := by
  rintro rfl
  refine (not_mem_reserved h).1 ?_
  cases mode <;> decide

/-- The text of a filter has the separator inside spans only. -/
theorem FilterText.IsWritable.separable {sep : Char} {f : FilterText} (hsep : Settings.isSeparator sep = true)
    (h : f.IsWritable sep) : Separable sep f.chars := by
  obtain ⟨hreserved, hblank⟩ := not_mem_reserved hsep
  have hsyntax {cs : List Char} (hmarkers : ∀ mode : Mode, mode.marker ∉ cs)
      (hcs : (cs.all fun c => Settings.reservedChars.contains c || isBlank c) = true) :
      Separable sep cs := by
    refine separable_of_not_mem hmarkers fun hmem => ?_
    have hsep := List.all_eq_true.1 hcs sep hmem
    rw [hblank, Bool.or_false] at hsep
    exact hreserved (List.contains_iff_mem.1 hsep)
  have hname : Separable sep f.name.toList := by
    refine separable_of_not_mem (fun mode hmem => ?_) h.separator
    have hchar := h.nameChars _ hmem
    rw [marker_not_isNameChar] at hchar
    cases hchar
  have hopen : Separable sep ['('] := hsyntax (fun mode => by cases mode <;> decide) (by decide)
  have hclose : Separable sep [')'] := hsyntax (fun mode => by cases mode <;> decide) (by decide)
  have hcomma : Separable sep [',', ' '] := hsyntax (fun mode => by cases mode <;> decide) (by decide)
  have hinner : Separable sep f.inner := by
    refine separable_joinWith hcomma ?_
    rw [List.forall_mem_map]
    exact fun arg harg => ⟨(h.args arg harg).closed, (h.args arg harg).separator⟩
  exact hname.append (hopen.append (hinner.append hclose))

/-! ## Cells -/

/-- The parts of a cell that is written are its body and its filters. -/
theorem splitOutside_formulaText {sep : Char} (hsep : Settings.isSeparator sep = true) {body : String}
    (hbody : Separable sep body.toList) {filters : List FilterText}
    (hfilters : ∀ f ∈ filters, f.IsWritable sep) :
    splitOutside sep (formulaText sep body filters).toList =
      body.toList :: filters.map FilterText.chars := by
  have hjoined : (formulaText sep body filters).toList =
      joinWith [sep] (body.toList :: filters.map FilterText.chars) := by
    rw [formulaText, String.toList_ofList, joinWith_cons_eq_flatMap, List.flatMap_map]
    rfl
  rw [hjoined]
  refine splitOutside_joinWith (List.cons_ne_nil _ _) (ne_marker hsep) ?_
  rw [List.forall_mem_cons, List.forall_mem_map]
  exact ⟨hbody, fun f hf => (hfilters f hf).separable hsep⟩

/-- The filters of a cell are read as they were written. -/
theorem exists_mapM_parse {sep : Char} {filters : List FilterText} (h : ∀ f ∈ filters, f.IsWritable sep) :
    ∃ calls, (filters.map FilterText.chars).mapM FilterCall.parse = .ok calls ∧
      List.Forall₂ FilterText.Reads filters calls := by
  induction filters with
  | nil => exact ⟨[], rfl, .nil⟩
  | cons f filters ih =>
      rw [List.forall_mem_cons] at h
      obtain ⟨calls, hcalls, hreads⟩ := ih h.2
      obtain ⟨args, hargs⟩ := exists_mapM_eq_ok_iff.2 fun arg harg => (h.1.args arg harg).readable
      refine ⟨⟨f.name, args⟩ :: calls, ?_, .cons ⟨rfl, mapM_eq_ok_iff.1 hargs⟩ hreads⟩
      rw [List.map_cons, List.mapM_cons, h.1.parse_chars, hargs, hcalls]
      rfl

/--
A cell that is written from a body and from filters is read as just these, if the separator is one that settings
may have. Markers in the texts have to be closed, and what separates a text from its neighbours may stand in its
spans only; the names and the arguments of the filters are as long as they like, and of any script.
-/
theorem Formula.parse_formulaText {s t : Settings} (hsettings : s.validate = .ok t) {body : String} {b : Body}
    (hbody : Body.parse body = .ok b) (hclosed : IsClosed body.toList)
    (hsep : ¬ StandsOutside t.separator body.toList) {filters : List FilterText}
    (hfilters : ∀ f ∈ filters, f.IsWritable t.separator) :
    ∃ calls, Formula.parse (formulaText t.separator body filters) t.separator = .ok ⟨b, calls⟩ ∧
      List.Forall₂ FilterText.Reads filters calls := by
  obtain ⟨calls, hcalls, hreads⟩ := exists_mapM_parse hfilters
  refine ⟨calls, ?_, hreads⟩
  rw [Formula.parse, splitOutside_formulaText (isSeparator_of_validate hsettings) ⟨hclosed, hsep⟩ hfilters]
  simp only [String.ofList_toList, hbody, hcalls]
  rfl

/-- A separator and a comma in spans, parentheses in an argument, and a filter without arguments. -/
theorem Formula.parse_formulaText_nested :
    let settings : Settings := { Settings.default with separator := '^' }
    let filters : List FilterText := [⟨"金額_2", ["$x, y^.z$", "1) (2"]⟩, ⟨"bold", []⟩]
    let text := "Sum #a^b.c#^金額_2($x, y^.z$, 1) (2)^bold()"
    settings.validate = .ok settings ∧ formulaText '^' "Sum #a^b.c#" filters = text ∧
      ∃ b calls, Body.parse "Sum #a^b.c#" = .ok b ∧ Formula.parse text '^' = .ok ⟨b, calls⟩ ∧
        List.Forall₂ FilterText.Reads filters calls := by
  intro settings filters text
  let b : Body := ⟨"Sum #a^b.c#", [.literal "Sum ", .slot ⟨.group, "a^b.c", ⟨"a^b", "c"⟩, []⟩]⟩
  have hbody : Body.parse "Sum #a^b.c#" = .ok b := by decide +kernel
  have hspan : FilterText.IsArgument '^' "$x, y^.z$" := by
    refine ⟨by decide, by decide +kernel, by decide +kernel, by decide +kernel, by decide +kernel, ?_⟩
    exact ⟨⟨"$x, y^.z$", [.slot ⟨.plain, "x, y^.z", ⟨"x, y^", "z"⟩, []⟩]⟩, by decide +kernel⟩
  have hliteral : FilterText.IsArgument '^' "1) (2" := by
    refine ⟨by decide, by decide +kernel, by decide +kernel, by decide +kernel, by decide +kernel, ?_⟩
    exact ⟨⟨"1) (2", [.literal "1) (2"]⟩, by decide +kernel⟩
  have hnames : ∀ f ∈ filters, f.name.toList.all FilterCall.isNameChar = true := by decide +kernel
  have hfilters : ∀ f ∈ filters, f.IsWritable '^' := by
    intro f hf
    have hname := List.all_eq_true.1 (hnames f hf)
    rcases List.mem_cons.1 hf with rfl | hf
    · refine ⟨by decide, hname, by decide, fun arg harg => ?_⟩
      rcases List.mem_cons.1 harg with rfl | harg
      · exact hspan
      · rwa [List.mem_singleton.1 harg]
    · obtain rfl := List.mem_singleton.1 hf
      exact ⟨by decide, hname, by decide, nofun⟩
  have htext : formulaText '^' "Sum #a^b.c#" filters = text := by decide +kernel
  have hsettings : settings.validate = .ok settings := rfl
  obtain ⟨calls, hparse, hreads⟩ :=
    Formula.parse_formulaText hsettings hbody (by decide +kernel) (by decide +kernel) hfilters
  rw [← htext]
  exact ⟨hsettings, rfl, b, calls, hbody, hparse, hreads⟩

end SheetFill.Cell
