/-
Paths: names with slashes between them, from the top of the file tree or from
the current directory. Empty names and names for the directory itself are left
out; names for the parent directory stay, since only the file tree can follow
them.
-/
import TypeDesc.Text.Block

namespace TypeDesc

/-- A path. -/
structure Path where
  absolute : Bool
  names : List String
deriving DecidableEq, Repr

namespace Path

/-- The names of a text, which slashes divide. -/
def splitNames : List Char → List (List Char)
  | [] => [[]]
  | c :: cs => if c = '/' then [] :: splitNames cs else Text.consLine c (splitNames cs)

/-- The path that a text writes. -/
def ofText (text : String) : Path where
  absolute := text.toList.head? == some '/'
  names := ((splitNames text.toList).map String.ofList).filter fun name => name ≠ "" && name ≠ "."

/-- The text of a path. -/
def text (p : Path) : String :=
  if p.absolute then "/" ++ Text.joinWith "/" p.names
  else if p.names.isEmpty then "."
  else Text.joinWith "/" p.names

/-- `q` as seen from the directory `p`. -/
def join (p q : Path) : Path :=
  if q.absolute then q else ⟨p.absolute, p.names ++ q.names⟩

/-- The entry `name` of the directory `p`. -/
def child (p : Path) (name : String) : Path :=
  ⟨p.absolute, p.names ++ [name]⟩

/-- The directory that a path names its last entry in. -/
def parent (p : Path) : Path :=
  ⟨p.absolute, p.names.dropLast⟩

/-- The ending of a name: its last dot and what follows. A dot at either end makes none. -/
def ending (name : String) : String :=
  let cs := name.toList.reverse
  let after := cs.takeWhile (· ≠ '.')
  let before := (cs.dropWhile (· ≠ '.')).drop 1
  if after.isEmpty || before.isEmpty then "" else String.ofList ('.' :: after.reverse)

/-- A name with its ending replaced. -/
def withEnding (name new : String) : String :=
  String.ofList (name.toList.take (name.length - (ending name).length)) ++ new

/-- A path with the ending of its last name replaced. -/
def replaceEnding (p : Path) (new : String) : Path :=
  match p.names.getLast? with
  | none => p
  | some name => ⟨p.absolute, p.names.dropLast ++ [withEnding name new]⟩

end Path

end TypeDesc
