/-
Identifiers of the Reason language made from names of a description. A type or a
type variable starts in lower case and must not be a reserved word; a
constructor starts in upper case. Two names are the same type exactly when they
make the same identifier.
-/
import TypeDesc.Text.Alphanumeric
import TypeDesc.Text.LetterCase

namespace TypeDesc

/-- The words that Reason keeps for itself. -/
def reservedWords : List String :=
  ["and", "as", "assert", "begin", "class", "constraint", "do", "done", "downto", "else", "end",
    "esfun", "exception", "external", "false", "for", "fun", "function", "functor", "if", "in",
    "include", "inherit", "initializer", "lazy", "let", "method", "module", "mutable", "new",
    "nonrec", "object", "of", "open", "or", "pri", "pub", "rec", "sig", "struct", "switch", "then",
    "to", "true", "try", "type", "val", "virtual", "when", "while", "with"]

/-- `name` with its first character mapped by `f`. -/
def mapFirst (f : Char → List Char) (name : String) : String :=
  match name.toList with
  | [] => ""
  | c :: cs => String.ofList (f c ++ cs)

/-- The type identifier of a name: lower case first, and an underscore behind a reserved word. -/
def typeIdent (name : String) : String :=
  let ident := mapFirst Text.lowerChar name
  if ident ∈ reservedWords then ident ++ "_" else ident

/-- The constructor identifier of a name: upper case first. -/
def ctorIdent (name : String) : String :=
  mapFirst Text.upperChar name

/-- The type variable of a name: its type identifier behind a quote. -/
def varIdent (name : String) : String :=
  "'" ++ typeIdent name

/-- Whether a name can become a constructor: it starts with an ASCII letter. -/
def startsWithLetter (name : String) : Bool :=
  match name.toList with
  | [] => false
  | c :: _ => Text.isAsciiLetter c

end TypeDesc
