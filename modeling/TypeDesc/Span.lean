/-
Places in a file: lines and columns count from one, and both ends belong to a
span. The numbers are integers, since a span may come from outside and point
nowhere.
-/

namespace TypeDesc

/-- A range of a file. -/
structure Span where
  file : String
  startLine : Int
  startCol : Int
  endLine : Int
  endCol : Int
deriving DecidableEq, Repr

namespace Span

/-- The file and the place where the span starts. -/
def heading (span : Span) : String :=
  span.file ++ ":" ++ toString span.startLine ++ ":" ++ toString span.startCol

/-- The span of `file` from the start of `first` to the end of `last`. -/
def between (file : String) (first last : Span) : Span :=
  ⟨file, first.startLine, first.startCol, last.endLine, last.endCol⟩

/-- Whether the span ends on the line where it starts. -/
def onOneLine (span : Span) : Bool :=
  span.endLine == span.startLine

end Span

/-- A line and a column of a text that is being read. -/
structure Position where
  line : Nat
  col : Nat
deriving DecidableEq, Repr

namespace Position

/-- Where a text starts. -/
def start : Position := ⟨1, 1⟩

/-- The position after the character `c`: only a line feed opens a new line. -/
def after (p : Position) (c : Char) : Position :=
  if c = '\n' then ⟨p.line + 1, 1⟩ else ⟨p.line, p.col + 1⟩

/-- The position after a text. -/
def afterAll (p : Position) (cs : List Char) : Position :=
  cs.foldl after p

/-- The span of the single character at `p`. -/
def span (p : Position) (file : String) : Span :=
  ⟨file, p.line, p.col, p.line, p.col⟩

/-- The span of a text that starts at `p` and is followed by `next`. -/
def spanTo (p : Position) (file : String) (next : Position) : Span :=
  ⟨file, p.line, p.col, next.line, if p.col < next.col then next.col - 1 else p.col⟩

end Position

end TypeDesc
