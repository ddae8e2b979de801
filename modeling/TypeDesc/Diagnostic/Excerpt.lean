/-
Diagnostics as shown on a terminal: a header, then for each label the place, the
source line and carets under the text meant, then the suggestions with the line
as it would be, then the notes. Colors only add escape sequences.
-/
import TypeDesc.Diagnostic
import TypeDesc.Text.Block
import TypeDesc.Text.Escape
import TypeDesc.Text.Slice

namespace TypeDesc

/-- The lines of each file that diagnostics may point into; a file that is not known has none. -/
abbrev Sources := String → List String

/-- Line `line` of `file`, counted from one. -/
def Sources.line? (sources : Sources) (file : String) (line : Int) : Option String :=
  if 1 ≤ line then (sources file)[(line - 1).toNat]? else none

/-- The color of a severity. -/
def Severity.color : Severity → String
  | .error => "1;31"
  | .warning => "1;33"

namespace Diagnostic

/-- `text` in a color, if colors are on. -/
def paint (color : Bool) (code text : String) : String :=
  if color then Text.colorCode code ++ text ++ Text.colorCode "0" else text

/-- A mark of the margin. -/
def marginMark (color : Bool) (mark : String) : String :=
  paint color "1;34" mark

/-- The width of the line numbers of a diagnostic. -/
def numberWidth (d : Diagnostic) : Nat :=
  (d.labels.map fun label => (toString label.span.startLine).length).foldl max 0

/-- A source line behind its number, which is right-aligned in `width` columns. -/
def sourceRow (color : Bool) (width : Nat) (line : Int) (text : String) : String :=
  let number := toString line
  marginMark color (Text.blanks (width - number.length : Nat) ++ number ++ " |") ++ " " ++ text

/-- The carets under a span of the line `text`. -/
def carets (span : Span) (text : String) : String :=
  let last := if span.onOneLine then span.endCol else text.length
  String.ofList (List.replicate (max 1 (last - span.startCol + 1)).toNat '^')

/-- The rows that show a label. -/
def labelRows (sources : Sources) (color : Bool) (width : Nat) (severity : Severity)
    (label : Label) : List String :=
  let span := label.span
  let pad := Text.blanks width
  let place := pad ++ marginMark color "-->" ++ " " ++ span.heading
  let gap := pad ++ " " ++ marginMark color "|"
  match sources.line? span.file span.startLine with
  | none => [place, gap]
  | some text =>
    let message :=
      if label.message = "" then "" else " " ++ paint color severity.color label.message
    let marker := Text.blanks (span.startCol - 1) ++
      paint color severity.color (carets span text) ++ message
    [place, gap, sourceRow color width span.startLine text, gap ++ " " ++ marker]

/-- The line of a span with the text of the span replaced, when the span lies on one known line. -/
def patchedLine? (sources : Sources) (span : Span) (replacement : String) : Option String :=
  match sources.line? span.file span.startLine with
  | none => none
  | some text =>
    if span.onOneLine then
      some (String.ofList (Text.takeTo (span.startCol - 1) text.toList) ++ replacement ++
        String.ofList (Text.dropTo span.endCol text.toList))
    else none

/-- The rows that show a suggestion for the text under the first label. -/
def suggestionRows (sources : Sources) (color : Bool) (width : Nat) (first : Option Label)
    (suggestion : Suggestion) : List String :=
  let help := Text.blanks width ++ " " ++ marginMark color "=" ++ " " ++
    paint color "1;32" "help" ++ ": " ++ suggestion.message
  match first with
  | none => [help]
  | some label =>
    match patchedLine? sources label.span suggestion.replacement with
    | none => [help]
    | some text => [help, sourceRow color width label.span.startLine text]

/-- The row that shows a note. -/
def noteRow (color : Bool) (width : Nat) (note : String) : String :=
  Text.blanks width ++ " " ++ marginMark color "=" ++ " note: " ++ note

/-- The first row of a diagnostic. -/
def header (color : Bool) (d : Diagnostic) : String :=
  paint color d.severity.color (d.severity.word ++ "[" ++ d.code ++ "]") ++
    paint color "1" (": " ++ d.message)

/-- The rows of a diagnostic. -/
def rows (sources : Sources) (color : Bool) (d : Diagnostic) : List String :=
  header color d ::
    d.labels.flatMap (labelRows sources color d.numberWidth d.severity) ++
    d.suggestions.flatMap (suggestionRows sources color d.numberWidth d.labels.head?) ++
    d.notes.map (noteRow color d.numberWidth)

/-- A diagnostic as shown on a terminal. -/
def render (sources : Sources) (color : Bool) (d : Diagnostic) : String :=
  Text.joinWith "\n" (d.rows sources color)

end Diagnostic

end TypeDesc
