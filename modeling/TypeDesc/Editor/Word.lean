/-
The word at a place of a text: the longest run of word characters that the
cursor touches. Behind the last character of a line the cursor still touches
that character.
-/
import TypeDesc.Text.Alphanumeric
import TypeDesc.Text.Lines

namespace TypeDesc.Editor

/-- Whether `c` is part of a word: a letter, a number, the underscore or a quote. -/
def inWord (c : Char) : Bool :=
  Text.isAlphanumeric c || c == '_' || c == '\x27'

/-- The word around a place in a line: the run of word characters before the place, and the run from
the place on. -/
def wordAround (cs : List Char) (i : Nat) : List Char :=
  ((cs.take i).reverse.takeWhile inWord).reverse ++ (cs.drop i).takeWhile inWord

/-- The word of the line `cs` at a character. -/
def wordInLine (cs : List Char) (character : Int) : List Char :=
  if character < 0 then []
  else if character < cs.length then wordAround cs character.toNat
  else if character = cs.length && 0 < character then wordAround cs (character - 1).toNat
  else []

/-- The word at a line and a character of `source`, both counted from zero. -/
def wordAt (source : String) (line character : Int) : String :=
  if line < 0 then ""
  else
    match (Text.splitLines source.toList)[line.toNat]? with
    | some cs => String.ofList (wordInLine cs character)
    | none => ""

end TypeDesc.Editor
