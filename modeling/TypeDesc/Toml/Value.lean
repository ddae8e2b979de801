/-
Values of the TOML format, and how they are shown.
-/
import TypeDesc.Double.Shortest
import TypeDesc.Text.Decimal
import TypeDesc.Text.Quoted
import TypeDesc.Toml.Moment

namespace TypeDesc.Toml

/-- A TOML value. -/
inductive Value
  | text (value : String)
  | integer (value : Int)
  | boolean (value : Bool)
  /-- A number with a fraction or an exponent. -/
  | real (value : Double)
  | moment (value : Moment)
  | array (items : List Value)
  | table (entries : List (String × Value))
deriving Repr

/-- Why a text gives no document. -/
inductive Defect
  | malformed
  /-- A whole number in base ten has too many digits. -/
  | hugeInteger
deriving DecidableEq, Repr

namespace Defect

/-- The wording of a defect. -/
def message : Defect → String
  | .malformed => "the document is malformed"
  | .hugeInteger => "an integer has too many digits"

/-- A value that must be there. -/
def orMalformed {α : Type} : Option α → Except Defect α
  | some a => .ok a
  | none => .error .malformed

end Defect

namespace Value

mutual
/-- A value as it is shown inside an array or a table. -/
def shown : Value → String
  | .text value => Text.quoted value
  | .integer value => toString value
  | .boolean true => "True"
  | .boolean false => "False"
  | .real value => value.text
  | .moment value => value.shown
  | .array items => "[" ++ Text.commaSeparated (shownItems items) ++ "]"
  | .table entries => "\x7b" ++ Text.commaSeparated (shownEntries entries) ++ "\x7d"

/-- The items of an array as they are shown. -/
def shownItems : List Value → List String
  | [] => []
  | v :: vs => shown v :: shownItems vs

/-- The entries of a table as they are shown. -/
def shownEntries : List (String × Value) → List String
  | [] => []
  | (key, v) :: entries => (Text.quoted key ++ ": " ++ shown v) :: shownEntries entries
end

/-- A value as it is shown in a message: a text stands without quotes, a moment as it is written. -/
def message : Value → String
  | .text value => value
  | .moment value => value.text
  | v => v.shown

mutual
/-- Whether a value can be shown: no integer in it has too many digits. -/
def isShowable : Value → Bool
  | .integer value => value.natAbs < 10 ^ Text.maxIntegerDigits
  | .array items => areShowable items
  | .table entries => entriesAreShowable entries
  | _ => true

/-- Whether all items of an array can be shown. -/
def areShowable : List Value → Bool
  | [] => true
  | v :: vs => isShowable v && areShowable vs

/-- Whether all entries of a table can be shown. -/
def entriesAreShowable : List (String × Value) → Bool
  | [] => true
  | (_, v) :: entries => isShowable v && entriesAreShowable entries
end

/-- Whether a value counts as yes. Zero and everything empty count as no. -/
def isYes : Value → Bool
  | .text value => value ≠ ""
  | .integer value => value ≠ 0
  | .boolean value => value
  | .real value => !value.isZero
  | .moment _ => true
  | .array items => !items.isEmpty
  | .table entries => !entries.isEmpty

/-- The text that a value is. -/
def text? : Value → Option String
  | .text value => some value
  | _ => none

end Value

end TypeDesc.Toml
