/-
The Reason module of a description: the declarations that its expression needs,
and at the end a synonym for the expression itself, the top. The top is left out
when it is not wanted, and when the expression is a type that already has its
identifier; a declaration with that identifier is an error otherwise.
-/
import TypeDesc.Description.Reader
import TypeDesc.Expr.Reason
import TypeDesc.Reason.Printer

namespace TypeDesc

open Reason (Decl)

/-- Why a description has no Reason module. -/
inductive EmitError
  | rejected (report : Report)
  | fault (fault : Fault)
deriving DecidableEq, Repr

namespace Description

/-- The declarations of a description, each after those that are first met in its body. -/
def declarations (d : Description) : Except Fault (List Decl) :=
  d.body.declarations (.ofParams d.params)

/-- Whether the expression is a recursive or named type with the identifier of `top`. -/
def isTop (d : Description) (top : String) : Bool :=
  match d.body.name? with
  | some name => typeIdent name == typeIdent top
  | none => false

/-- The synonym `top` for the expression of a description. -/
def topDecl (d : Description) (top : String) : Except Fault Decl := do
  let type ← d.body.toReason (.ofParams d.params)
  let params ← d.body.params (.ofParams d.params)
  .ok (.synonym ⟨top, params⟩ type)

/-- The report of a declaration that has the identifier of `top`. -/
def clash (d : Description) (decl : Decl) (top : String) : Report :=
  ⟨.topClash decl.name top, d.place? decl.name⟩

/-- The declarations of the Reason module of a description, that of `top` last if one is wanted. -/
def reasonModule (d : Description) (top : Option String) : Except EmitError (List Decl) := do
  let decls ← d.declarations.mapError .fault
  match top with
  | none => .ok decls
  | some top =>
    if d.isTop top then .ok decls
    else
      match decls.find? fun decl => typeIdent decl.name == typeIdent top with
      | some decl => .error (.rejected (d.clash decl top))
      | none => do
        let last ← (d.topDecl top).mapError .fault
        .ok (decls ++ [last])

/-- The text of the Reason module of a description. -/
def emit (d : Description) (top : Option String) (width : Text.Width) :
    Except EmitError String := do
  let decls ← d.reasonModule top
  (Reason.printModule width decls).mapError .fault

/-- The text of the declaration of `name`, if there is one. -/
def printDeclaration (d : Description) (width : Text.Width) (name : String) :
    Except Fault (Option String) := do
  let decls ← d.declarations
  match decls.find? (·.name == name) with
  | none => .ok none
  | some decl => do
    let text ← decl.print width
    .ok (some text)

end Description

/-- How a description is emitted: the name of the top, if one is wanted, and the width of lines. -/
structure EmitOptions where
  top : Option String := some "t"
  width : Text.Width := .columns 80
deriving DecidableEq, Repr

/-- Why a source has no Reason module. -/
inductive CompileError
  | noTokens
  | rejected (reports : List Report)
  | fault (fault : Fault)
deriving DecidableEq, Repr

namespace CompileError

/-- An error of reading. -/
def ofRead : ReadError → CompileError
  | .noTokens => .noTokens
  | .rejected reports => .rejected reports

/-- An error of emission. -/
def ofEmit : EmitError → CompileError
  | .rejected report => .rejected [report]
  | .fault f => .fault f

end CompileError

/-- The text of the Reason module of a source, and the warnings about the source. -/
def compile (options : EmitOptions) (file source : String) :
    Except CompileError (String × List Report) := do
  let (d, warnings) ← (Description.ofSource file source).mapError .ofRead
  let text ← (d.emit options.top options.width).mapError .ofEmit
  .ok (text, warnings)

end TypeDesc
