/-
Blocks of text: strings that may run over several lines. The printers of this
library put them side by side, below one another, or on one line when they fit.
-/
import TypeDesc.Text.Lines

namespace TypeDesc.Text

/-- The texts of a list with `sep` between each two. -/
def joinWith (sep : String) : List String → String
  | [] => ""
  | [text] => text
  | text :: texts => text ++ sep ++ joinWith sep texts

/-- The non-empty parts, with a blank between each two. -/
def spaced (parts : List String) : String :=
  joinWith " " (parts.filter (· ≠ ""))

/-- The items with a comma and a blank between each two. -/
def commaSeparated (items : List String) : String :=
  joinWith ", " items

/-- `inner` between parentheses. -/
def parenthesized (inner : String) : String :=
  "(" ++ inner ++ ")"

/-- `n` blanks; none for a negative `n`. -/
def blanks (n : Int) : String :=
  String.ofList (List.replicate n.toNat ' ')

/-- The block with each non-empty line moved `n` columns to the right. -/
def indented (text : String) (n : Int) : String :=
  joinWith "\n" ((lines text).map fun line => if line = "" then line else blanks n ++ line)

/-- The non-empty blocks below one another, with an empty line between each two. -/
def stacked (blocks : List String) : String :=
  joinWith "\n\n" (blocks.filter (· ≠ ""))

/-- The room on a line. -/
inductive Width
  /-- So many columns; nothing has room in a negative number of them. -/
  | columns (count : Int)
  | unbounded
deriving DecidableEq, Repr

/-- Whether `length` characters have room on a line. -/
def Width.holds : Width → Nat → Bool
  | .columns count, length => length ≤ count
  | .unbounded, _ => true

/-- Whether `text` is one line that has room in `width`. -/
def fitsIn (width : Width) (text : String) : Bool :=
  !text.toList.contains '\n' && width.holds text.length

/-- The items on one line after their head, if that fits; otherwise the head on a line of its own
and each item on an indented line that `sep` leads. The tail follows the last item. -/
def grouped (width : Width) (head : String) (items : List String) (sep tail : String) : String :=
  let flat := spaced [head, joinWith (" " ++ sep ++ " ") items] ++ tail
  if fitsIn width flat then flat
  else joinWith "\n" (head :: items.map fun item => indented (sep ++ " " ++ item) 2) ++ tail

end TypeDesc.Text
