/-
The classes of text in a description, for an editor that shows them in colors.
-/
import TypeDesc.Coloring.Rule
import TypeDesc.Token.Scan

namespace TypeDesc.Coloring

/-- The classes of text in a description. -/
inductive DescriptionClass
  | blank
  | comment
  /-- The word before the name of a recursive or named type. -/
  | declarationWord
  /-- The name of a recursive or named type, where it is declared. -/
  | declaredName
  | paramsWord
  /-- Void and unit. -/
  | typeWord
  | ctorName
  | variableName
  | operator
  | punctuation
  /-- A character that belongs to nothing. -/
  | stray
deriving DecidableEq, Repr

namespace DescriptionClass

/-- The identifier that starts a text. -/
def identifier? (cs : List Char) : Option (List Char) :=
  headAndRun Lexeme.startsWord Lexeme.continuesWord cs

/-- The word for a recursive or a named type, blanks, and the name declared. -/
def declaration : Rule DescriptionClass := fun before cs =>
  if inWord before then none
  else
    match oneOf ["rec", "alias"] cs with
    | none => none
    | some word =>
      match run Text.isBlank (cs.drop word.length) with
      | none => none
      | some blanks =>
        (identifier? (cs.drop (word.length + blanks.length))).map fun name =>
          [⟨declarationWord, word⟩, ⟨blank, blanks⟩, ⟨declaredName, name⟩]

/-- Two slashes and the rest of their line. -/
def comment? (cs : List Char) : Option (List Char) :=
  match cs with
  | '/' :: '/' :: cs => some ('/' :: '/' :: cs.takeWhile (· ≠ '\n'))
  | _ => none

/-- An identifier before a colon. -/
def beforeColon? (cs : List Char) : Option (List Char) :=
  match identifier? cs with
  | none => none
  | some word =>
    if ((cs.drop word.length).dropWhile Text.isBlank).head? = some ':' then some word else none

/-- Whether `c` is an ASCII letter in upper case. -/
def isAsciiUpper (c : Char) : Bool :=
  'A' ≤ c && c ≤ 'Z'

/-- Whether `c` starts a variable: an ASCII letter in lower case or the underscore. -/
def startsVariable (c : Char) : Bool :=
  ('a' ≤ c && c ≤ 'z') || c == '_'

/-- The rules for descriptions, in order. -/
def rules : List (Rule DescriptionClass) :=
  [plainRule blank (run Text.isBlank),
    plainRule comment comment?,
    declaration,
    rule paramsWord (wholeWord ["params"]),
    rule typeWord (wholeWord ["void", "unit"]),
    plainRule ctorName beforeColon?,
    plainRule ctorName (headAndRun isAsciiUpper Lexeme.continuesWord),
    plainRule variableName (headAndRun startsVariable Lexeme.continuesWord),
    plainRule operator (single fun c => c == '+' || c == '*'),
    plainRule punctuation (single fun c => ['(', ')', ',', '\x7b', '\x7d', ':'].contains c)]

end DescriptionClass

/-- The pieces of a description with their classes. -/
def ofDescription (source : String) : List (Piece DescriptionClass) :=
  cut DescriptionClass.rules .stray source

end TypeDesc.Coloring
