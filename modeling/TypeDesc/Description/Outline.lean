/-
The outline of a description: its parameters, and its expression as a tree with
one node per line.
-/
import TypeDesc.Description.Basic
import TypeDesc.Text.Block

namespace TypeDesc

namespace Expr

/-- A line of an outline at a depth. -/
def outlineRow (depth : Nat) (text : String) : String :=
  Text.blanks (2 * depth : Nat) ++ text

mutual
/-- The lines of the tree of an expression. -/
def outline (depth : Nat) : Expr → List String
  | .void => [outlineRow depth "Void"]
  | .unit => [outlineRow depth "Unit"]
  | .var index => [outlineRow depth ("BoundVar index=" ++ toString index)]
  | .sum first second rest =>
    outlineRow depth "Sum" ::
      (outline (depth + 1) first ++ outline (depth + 1) second ++ outlineAll (depth + 1) rest)
  | .product first second rest =>
    outlineRow depth "Product" ::
      (outline (depth + 1) first ++ outline (depth + 1) second ++ outlineAll (depth + 1) rest)
  | .recursive name ctors =>
    outlineRow depth ("Recursive name=" ++ Text.quoted name) :: outlineCtors (depth + 1) ctors
  | .named name body =>
    outlineRow depth ("Named name=" ++ Text.quoted name) :: outline (depth + 1) body
  | .foreign value => [outlineRow depth value.shown]

/-- The lines of the trees of expressions. -/
def outlineAll (depth : Nat) : List Expr → List String
  | [] => []
  | e :: es => outline depth e ++ outlineAll depth es

/-- The lines of constructors, each above the tree of its payload. -/
def outlineCtors (depth : Nat) : List (Ctor Expr) → List String
  | [] => []
  | ⟨name, e⟩ :: ctors =>
    outlineRow depth (name ++ ":") :: (outline (depth + 1) e ++ outlineCtors depth ctors)
end

end Expr

namespace Description

/-- The lines of the outline of a description. -/
def outline (d : Description) : List String :=
  (if d.params.isEmpty then [] else ["params: " ++ Text.commaSeparated d.params]) ++
    d.body.outline 0

end Description

end TypeDesc
