/-
Classes of text for a display with colors. A text is cut by an ordered list of
rules: at each place the first rule that matches there decides, and a character
at which none does is a piece of its own. A rule sees the character before the
place, since a word may have to start there. Where the rules change along the
text, as within a comment, they hang on a mode, and each rule says which mode
follows it.
-/
import TypeDesc.Text.Alphanumeric
import TypeDesc.Text.Blank
import TypeDesc.Text.Lines

namespace TypeDesc.Coloring

/-- A piece of a text with its class. -/
structure Piece (κ : Type) where
  kind : κ
  text : List Char
deriving DecidableEq, Repr

/-- A rule: given the character before a place and the text from there on, the pieces that start
there, if it matches. -/
abbrev Rule (κ : Type) := Option Char → List Char → Option (List (Piece κ))

/-- The number of characters of some pieces. -/
def extent (pieces : List (Piece κ)) : Nat :=
  (pieces.flatMap (·.text)).length

/-- The rules of each mode, in order, each with the mode that follows it. -/
abbrev Rules (μ κ : Type) := μ → List (Rule κ × μ)

/-- The pieces of the first rule that matches, and the mode after them. -/
def firstMatch (rules : List (Rule κ × μ)) (before : Option Char) (cs : List Char) :
    Option (List (Piece κ) × μ) :=
  rules.findSome? fun (rule, next) => (rule before cs).map fun pieces => (pieces, next)

/-- The pieces of a text whose first `skip` characters belong to an earlier piece. -/
def cutFrom (rules : Rules μ κ) (other : κ) :
    Nat → μ → Option Char → List Char → List (Piece κ)
  | _, _, _, [] => []
  | skip + 1, mode, _, c :: cs => cutFrom rules other skip mode (some c) cs
  | 0, mode, before, c :: cs =>
    match firstMatch (rules mode) before (c :: cs) with
    | some (pieces, next) => pieces ++ cutFrom rules other (extent pieces - 1) next (some c) cs
    | none => ⟨other, [c]⟩ :: cutFrom rules other 0 mode (some c) cs

/-- The character that may mark the start of a file. -/
def fileMark : Char := '\ufeff'

/-- A text as the rules see it: without a mark at its start, with line feeds as its only line
boundaries, none at its start and one at its end. -/
def prepare (cs : List Char) : List Char :=
  let cs := if cs.head? = some fileMark then cs.tail else cs
  let cs := (Text.unifyNewlines cs).dropWhile (· = '\n')
  (cs.reverse.dropWhile (· = '\n')).reverse ++ ['\n']

/-- The pieces of a text that is cut from its start in the mode `start`. -/
def cutIn (rules : Rules μ κ) (other : κ) (start : μ) (source : String) : List (Piece κ) :=
  cutFrom rules other 0 start none (prepare source.toList)

/-- The pieces of a text with the same rules throughout. -/
def cut (rules : List (Rule κ)) (other : κ) (source : String) : List (Piece κ) :=
  cutIn (fun _ : Unit => rules.map fun rule => (rule, ())) other () source

/-! ## Parts of rules -/

/-- Whether `c` is a character of a word. -/
def inWord (c : Option Char) : Bool :=
  c.any Text.isWordChar

/-- The longest run of characters in a class that starts a text, if there is one. -/
def run (p : Char → Bool) (cs : List Char) : Option (List Char) :=
  match cs with
  | c :: cs => if p c then some (c :: cs.takeWhile p) else none
  | [] => none

/-- A character of one class and the longest run of another after it. -/
def headAndRun (p q : Char → Bool) (cs : List Char) : Option (List Char) :=
  match cs with
  | c :: cs => if p c then some (c :: cs.takeWhile q) else none
  | [] => none

/-- A single character of a class. -/
def single (p : Char → Bool) (cs : List Char) : Option (List Char) :=
  match cs with
  | c :: _ => if p c then some [c] else none
  | [] => none

/-- The first of the texts that starts `cs`. -/
def oneOf (texts : List String) (cs : List Char) : Option (List Char) :=
  (texts.map String.toList).find? fun text => text.isPrefixOf cs

/-- The first of the words that starts `cs` and stands there as a whole. -/
def wholeWord (words : List String) (before : Option Char) (cs : List Char) : Option (List Char) :=
  if inWord before then none
  else
    (words.map String.toList).find? fun word =>
      word.isPrefixOf cs && !inWord (cs.drop word.length).head?

/-- A rule for one piece of the class `kind`. -/
def rule (kind : κ) (find : Option Char → List Char → Option (List Char)) : Rule κ :=
  fun before cs => (find before cs).map fun text => [⟨kind, text⟩]

/-- A rule that does not look at the character before. -/
def plainRule (kind : κ) (find : List Char → Option (List Char)) : Rule κ :=
  rule kind fun _ => find

end TypeDesc.Coloring
