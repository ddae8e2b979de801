/-
Scalars: plain values of the data around a type expression. One may stand by
mistake where a type is expected, and messages then show it.
-/
import TypeDesc.Text.Quoted

namespace TypeDesc

/-- A plain value. -/
inductive Scalar
  | null
  | bool (value : Bool)
  | int (value : Int)
  | text (value : String)
deriving DecidableEq, Repr

/-- A scalar as messages show it. -/
def Scalar.shown : Scalar → String
  | .null => "None"
  | .bool true => "True"
  | .bool false => "False"
  | .int value => toString value
  | .text value => Text.quoted value

end TypeDesc
