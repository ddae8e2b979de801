/-
Lines of a text. A line ends at any of the line boundaries of the Unicode
repertoire, a carriage return followed by a line feed being one boundary, and a
boundary at the end of the text opens no further line. Reading a file first
turns each of the three common boundaries into a line feed.
-/

namespace TypeDesc.Text

/-- Whether a line ends at `c`. -/
def isLineBoundary (c : Char) : Bool :=
  [0x0a, 0x0d, 0x0b, 0x0c, 0x1c, 0x1d, 0x1e, 0x85, 0x2028, 0x2029].contains c.toNat

/-- `c` put before the first line of `lines`. -/
def consLine (c : Char) : List (List Char) → List (List Char)
  | [] => [[c]]
  | line :: lines => (c :: line) :: lines

/-- The lines of a text, without their boundaries. -/
def splitLines : List Char → List (List Char)
  | [] => []
  | '\r' :: '\n' :: cs => [] :: splitLines cs
  | c :: cs => if isLineBoundary c then [] :: splitLines cs else consLine c (splitLines cs)

/-- The lines of a text, each with its boundary. -/
def cutLines : List Char → List (List Char)
  | [] => []
  | '\r' :: '\n' :: cs => ['\r', '\n'] :: cutLines cs
  | c :: cs => if isLineBoundary c then [c] :: cutLines cs else consLine c (cutLines cs)

/-- The lines of `text`, without their boundaries. -/
def lines (text : String) : List String :=
  (splitLines text.toList).map String.ofList

/-- A text with each carriage return, and each carriage return and line feed, made a line feed. -/
def unifyNewlines : List Char → List Char
  | [] => []
  | '\r' :: '\n' :: cs => '\n' :: unifyNewlines cs
  | c :: cs => (if c = '\r' then '\n' else c) :: unifyNewlines cs

/-- A text with every line ended by a line feed. -/
def unified (text : String) : String :=
  String.ofList (unifyNewlines text.toList)

/-- A text with each carriage return and line feed made a line feed; a lone carriage return
stays. -/
def unifyPairs : List Char → List Char
  | [] => []
  | '\r' :: '\n' :: cs => '\n' :: unifyPairs cs
  | c :: cs => c :: unifyPairs cs

theorem splitLines_nil : splitLines [] = [] := by simp [splitLines]

theorem consLine_ne_nil (c : Char) (lines : List (List Char)) : consLine c lines ≠ [] := by
  cases lines <;> simp [consLine]

end TypeDesc.Text
