/-
The text of Reason types, declarations and whole modules. A variant stands on
one line if it fits, and otherwise has one constructor per line.
-/
import TypeDesc.Fault
import TypeDesc.Identifier
import TypeDesc.Reason.Basic
import TypeDesc.Text.Block

namespace TypeDesc

namespace Reason

mutual
/-- The text of a type. -/
def Ty.print : Ty → Except Fault String
  | .unit => .ok "unit"
  | .tuple items => do
    let texts ← Ty.printAll items
    .ok (Text.parenthesized (Text.commaSeparated texts))
  | .var name => .ok (varIdent name)
  | .app name args => do
    let texts ← Ty.printAll args
    if texts.isEmpty then .ok (typeIdent name)
    else .ok (typeIdent name ++ Text.parenthesized (Text.commaSeparated texts))
  | .foreign value => .error (.notReasonType value)

/-- The texts of types. -/
def Ty.printAll : List Ty → Except Fault (List String)
  | [] => .ok []
  | t :: ts => do
    let text ← Ty.print t
    let texts ← Ty.printAll ts
    .ok (text :: texts)
end

/-- The text of a constructor: one that carries unit stands alone, and one that carries a tuple has
the items of the tuple as its arguments. -/
def printCtor (ctor : Ctor Ty) : Except Fault String :=
  match ctor.payload with
  | .unit => .ok (ctorIdent ctor.name)
  | .tuple items => do
    let text ← (Ty.tuple items).print
    .ok (ctorIdent ctor.name ++ text)
  | payload => do
    let text ← payload.print
    .ok (ctorIdent ctor.name ++ Text.parenthesized text)

/-- The texts of constructors. -/
def printCtors : List (Ctor Ty) → Except Fault (List String)
  | [] => .ok []
  | ctor :: ctors => do
    let text ← printCtor ctor
    let texts ← printCtors ctors
    .ok (text :: texts)

/-- The text of a head, behind the keyword of declarations. -/
def printHead (head : Head) : String :=
  let params :=
    if head.params.isEmpty then ""
    else Text.parenthesized (Text.commaSeparated (head.params.map varIdent))
  Text.spaced ["type", typeIdent head.name ++ params]

/-- The text of a declaration. -/
def Decl.print (width : Text.Width) : Decl → Except Fault String
  | .synonym head body => do
    let text ← body.print
    .ok (printHead head ++ " = " ++ text ++ ";")
  | .variant head [] => .ok (printHead head ++ ";")
  | .variant head ctors => do
    let texts ← printCtors ctors
    .ok (Text.grouped width (printHead head ++ " =") texts "|" ";")

/-- The texts of declarations. -/
def printDecls (width : Text.Width) : List Decl → Except Fault (List String)
  | [] => .ok []
  | d :: ds => do
    let text ← d.print width
    let texts ← printDecls width ds
    .ok (text :: texts)

/-- The text of a module: its declarations with an empty line between each two. -/
def printModule (width : Text.Width) (decls : List Decl) : Except Fault String := do
  let texts ← printDecls width decls
  .ok (Text.stacked texts ++ "\n")

/-- Whether the width of lines matters to the layout of a declaration. -/
def Decl.usesWidth : Decl → Bool
  | .variant _ (_ :: _) => true
  | _ => false

end Reason

end TypeDesc
