/-
Descriptions: the type parameters of a file, its one type expression, where the
expression stands, and where each recursive or named type was first declared.
-/
import TypeDesc.Expr.Basic
import TypeDesc.Span

namespace TypeDesc

/-- A description. -/
structure Description where
  params : List String
  body : Expr
  span : Span
  /-- The declared names in the order of their declarations, with their places. -/
  names : List (String × Span) := []
deriving DecidableEq, Repr

namespace Description

/-- Where `name` was declared. -/
def place? (d : Description) (name : String) : Option Span :=
  (d.names.find? (·.1 == name)).map (·.2)

/-- Whether the description declares `name`. -/
def declares (d : Description) (name : String) : Bool :=
  d.names.any (·.1 == name)

end Description

end TypeDesc
