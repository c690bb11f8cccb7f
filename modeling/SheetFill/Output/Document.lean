import SheetFill.Output.JsonForm
import SheetFill.Output.XmlForm
import SheetFill.Settings

/-!
# Instruction documents

An instruction document is a *frame* with the sheets of a workbook inside. Sheets are written as they
come; the first failure among them ends the writing, and what was written until then stays.

A document is a list of segments, and a segment knows who writes it: the frame around the sheets, or
the encoder of the format. Where the room for a document is limited, that decides which failure is
reported for the segment that does not fit: the frame passes the refusal on as it is, the encoder
reports a failure of its own.

## Main definitions

* `Format.stream` — the segments written for a list of sheets and failures, and how it ended.
* `Format.render` — the document of a list of sheets.
* `Format.streamWithin`, `Format.renderWithin` — the same with limited room.
-/

namespace SheetFill

open Output

/-- Who writes a segment of a document. -/
inductive Author where
  | frame
  | encoder
  deriving DecidableEq, Repr, Inhabited

/-- A piece of a document. -/
structure Segment where
  author : Author
  chars : List Char
  deriving DecidableEq, Repr, Inhabited

namespace Segment

/-- The text of segments. -/
def text (segments : List Segment) : String := String.ofList (segments.flatMap chars)

/-- The number of bytes of a segment. -/
def size (s : Segment) : Nat := s.chars.foldl (fun n c => n + c.utf8Size) 0

end Segment

namespace Format

/-- What comes before the sheets. -/
def opening : Format → List Segment
  | .json => [⟨.frame, "\x7b\"sheets\":[".toList⟩]
  | .xml => [⟨.encoder, "<?xml version=\"1.0\" encoding=\"UTF-8\"?>\n<workbook>".toList⟩]

/-- A sheet, with what separates it from the sheets before it. -/
def sheet (f : Format) (first : Bool) (s : Sheet) : List Segment :=
  match f with
  | .json =>
    [⟨.frame, if first then ['\n'] else [',', '\n']⟩, ⟨.encoder, s.toJson.chars⟩]
  | .xml => [⟨.encoder, s.toXml.chars 1⟩]

/-- What comes after the sheets. -/
def closing : Format → List Segment
  | .json => [⟨.frame, "\n]\x7d\n".toList⟩]
  | .xml => [⟨.encoder, "\n</workbook>".toList⟩, ⟨.frame, ['\n']⟩]

/-- The segments after the opening, for the sheets that come up to the first failure. -/
def sheets (f : Format) (first : Bool) :
    List (Except FillError Sheet) → List Segment × Option FillError
  | [] => (f.closing, none)
  | .error e :: _ => ([], some e)
  | .ok s :: rest =>
    let (segments, failure) := sheets f false rest
    (f.sheet first s ++ segments, failure)

/-- What is written for sheets and failures among them, and the failure that ended it. -/
def stream (f : Format) (items : List (Except FillError Sheet)) :
    List Segment × Option FillError :=
  let (segments, failure) := f.sheets true items
  (f.opening ++ segments, failure)

/-- The document of sheets. -/
def render (f : Format) (items : List Sheet) : String :=
  Segment.text (f.stream (items.map .ok)).1

/-- The failure that the author of a segment reports when the segment is refused. -/
def refused (f : Format) (refusal : String) : Author → FillError
  | .frame => .io refusal
  | .encoder =>
    match f with
    | .json => .json
    | .xml => .xml

/-- Is there room for the segments? The first that does not fit is refused. -/
def fit (f : Format) (refusal : String) : Nat → List Segment → Except FillError Unit
  | _, [] => .ok ()
  | room, s :: rest =>
    if s.size ≤ room then fit f refusal (room - s.size) rest else .error (f.refused refusal s.author)

/-- The document of sheets and failures, written into a limited number of bytes. -/
def streamWithin (f : Format) (room : Nat) (refusal : String)
    (items : List (Except FillError Sheet)) : Except FillError String :=
  let (segments, failure) := f.stream items
  match fit f refusal room segments, failure with
  | .error e, _ => .error e
  | .ok _, some e => .error e
  | .ok _, none => .ok (Segment.text segments)

/-- The document of sheets, handed over in one piece to where a limited number of bytes fit. -/
def renderWithin (f : Format) (room : Nat) (refusal : String) (items : List Sheet) :
    Except FillError String :=
  let text := f.render items
  if text.utf8ByteSize ≤ room then .ok text else .error (.io refusal)

end Format

end SheetFill
