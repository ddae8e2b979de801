/-
The canonical text of a description: one blank around operators, parentheses
only where the grammar needs them, and a recursive type on one line if it fits
and otherwise with one constructor per line.
-/
import TypeDesc.Description.Basic
import TypeDesc.Text.Block

namespace TypeDesc

namespace Expr

/-- How tightly an operator binds: sums least, then products. -/
def sumLevel : Int := 1

/-- How tightly products bind. -/
def productLevel : Int := 2

/-- `text`, whose operator binds at `level`, as an operand at `outer`. -/
def wrap (level outer : Int) (text : String) : String :=
  if level < outer then Text.parenthesized text else text

/-- The name at an index of a scope. -/
def nameAt (scope : List String) (index : Nat) : Except Fault String :=
  match scope[index]? with
  | some name => .ok name
  | none => .error (.outOfScope index)

/-- A recursive type with the given constructor texts. -/
def printType (width : Text.Width) (name : String) (ctors : List String) : String :=
  let flat := "rec " ++ name ++ " \x7b " ++ Text.commaSeparated ctors ++ " \x7d"
  if Text.fitsIn width flat then flat
  else
    let body := Text.joinWith "\n" (ctors.map fun ctor => Text.indented (ctor ++ ",") 2)
    "rec " ++ name ++ " \x7b\n" ++ body ++ "\n\x7d"

mutual
/-- The text of an expression as an operand at level `outer`. -/
def print (width : Text.Width) (scope : List String) (outer : Int) : Expr → Except Fault String
  | .void => .ok "void"
  | .unit => .ok "unit"
  | .var index => nameAt scope index
  | .sum first second rest => do
    let text ← print width scope (sumLevel + 1) first
    let text' ← print width scope (sumLevel + 1) second
    let texts ← printAll width scope (sumLevel + 1) rest
    .ok (wrap sumLevel outer (Text.joinWith " + " (text :: text' :: texts)))
  | .product first second rest => do
    let text ← print width scope (productLevel + 1) first
    let text' ← print width scope (productLevel + 1) second
    let texts ← printAll width scope (productLevel + 1) rest
    .ok (wrap productLevel outer (Text.joinWith " * " (text :: text' :: texts)))
  | .recursive name [] => .ok ("rec " ++ name ++ " \x7b\x7d")
  | .recursive name ctors => do
    let texts ← printCtors width (name :: scope) ctors
    .ok (printType width name texts)
  | .named name body => do
    let text ← print width scope 0 body
    .ok ("alias " ++ name ++ " \x7b " ++ text ++ " \x7d")
  | .foreign value => .error (.notExpression value)

/-- The texts of operands. -/
def printAll (width : Text.Width) (scope : List String) (outer : Int) :
    List Expr → Except Fault (List String)
  | [] => .ok []
  | e :: es => do
    let text ← print width scope outer e
    let texts ← printAll width scope outer es
    .ok (text :: texts)

/-- The texts of constructors; a payload of unit is left out. -/
def printCtors (width : Text.Width) (scope : List String) :
    List (Ctor Expr) → Except Fault (List String)
  | [] => .ok []
  | ⟨name, .unit⟩ :: ctors => do
    let texts ← printCtors width scope ctors
    .ok (name :: texts)
  | ⟨name, e⟩ :: ctors => do
    let text ← print width scope 0 e
    let texts ← printCtors width scope ctors
    .ok ((name ++ ": " ++ text) :: texts)
end

mutual
/-- Whether the width of lines matters to the text: some recursive type has constructors. -/
def usesWidth : Expr → Bool
  | .sum first second rest => usesWidth first || usesWidth second || anyUsesWidth rest
  | .product first second rest => usesWidth first || usesWidth second || anyUsesWidth rest
  | .recursive _ ctors => !ctors.isEmpty
  | .named _ body => usesWidth body
  | _ => false

/-- Whether the width matters to one of the texts. -/
def anyUsesWidth : List Expr → Bool
  | [] => false
  | e :: es => usesWidth e || anyUsesWidth es
end

end Expr

namespace Description

/-- The canonical text of a description, for lines of `width` columns. -/
def print (width : Text.Width) (d : Description) : Except Fault String := do
  let body ← d.body.print width d.params 0
  let params := if d.params.isEmpty then [] else ["params " ++ Text.commaSeparated d.params]
  .ok (Text.joinWith "\n" (params ++ [body]) ++ "\n")

end Description

end TypeDesc
