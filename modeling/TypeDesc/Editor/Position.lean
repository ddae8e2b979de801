/-
Places as editors count them: lines and characters from zero, a range without
its end. A place must fit in 31 bits.
-/
import TypeDesc.Diagnostic

namespace TypeDesc.Editor

/-- A place in a document. -/
structure Place where
  line : Int
  character : Int
deriving DecidableEq, Repr

/-- A place that editors do not accept. -/
inductive PlaceError
  | outOfRange
deriving DecidableEq, Repr

/-- The greatest line or character of a place. -/
def maxCoordinate : Int := 2147483647

/-- Whether a line or a character is acceptable. -/
def acceptable (i : Int) : Bool :=
  0 ≤ i && i ≤ maxCoordinate

/-- The place at a line and a character, if editors accept it. -/
def place (line character : Int) : Except PlaceError Place :=
  if acceptable line && acceptable character then .ok ⟨line, character⟩ else .error .outOfRange

/-- A range of a document, from a place to before another. -/
structure Range where
  start : Place
  stop : Place
deriving DecidableEq, Repr

namespace Range

/-- The range from a line and a character to before others, if editors accept it. -/
def between (startLine startChar stopLine stopChar : Int) : Except PlaceError Range := do
  let start ← place startLine startChar
  let stop ← place stopLine stopChar
  .ok ⟨start, stop⟩

/-- The range from the start of a first line and column to the end of a last one, all counted from
one. What is missing is where the text starts, or where the range does. -/
def ofColumns (startLine startCol endLine endCol : Option Int) : Except PlaceError Range :=
  let line := startLine.getD 1
  let col := startCol.getD 1
  between (line - 1) (col - 1) (endLine.getD line - 1) (endCol.getD col)

/-- The range of a span. -/
def ofSpan (span : Span) : Except PlaceError Range :=
  ofColumns (some span.startLine) (some span.startCol) (some span.endLine) (some span.endCol)

/-- The empty range at the start of a document. -/
def empty : Range := ⟨⟨0, 0⟩, ⟨0, 0⟩⟩

end Range

/-- A diagnostic as editors take it. -/
structure Notice where
  range : Range
  severity : Severity
  source : String
  code : String
  message : String
deriving DecidableEq, Repr

/-- The number that editors give to a severity. -/
def severityNumber : Severity → Nat
  | .error => 1
  | .warning => 2

/-- The notice of a diagnostic: it stands at the first label. -/
def Notice.ofDiagnostic (d : Diagnostic) : Except PlaceError Notice := do
  let range ←
    match d.labels with
    | [] => .ok .empty
    | label :: _ => Range.ofSpan label.span
  .ok { range, severity := d.severity, source := "typegen", code := d.code
        message := "[" ++ d.code ++ "] " ++ d.message }

end TypeDesc.Editor
