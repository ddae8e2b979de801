/-
From type expressions to Reason. Every expression has a Reason type, in which
void, sums, recursive and named types appear as applied names; `collect` finds
the declarations behind those names.

A declaration is put into the list before those that are first met in its body,
and its identifier is marked before its body is searched, so that a type that
mentions itself is declared once. `declarations` reverses the list: what is first
met in the body of a declaration stands before it, and what has been met earlier
stands after it.
-/
import TypeDesc.Expr.Scope
import TypeDesc.Identifier

namespace TypeDesc

open Reason (Ty Decl)

/-- A declared type applied to parameters. -/
def applyTo (name : String) (params : List String) : Ty :=
  .app name (params.map .var)

/-- The choice between `first` and the types after it, nested to the right. -/
def choice (first : Ty) : List Ty → Ty
  | [] => first
  | second :: rest => .app Reason.eitherDecl.name [first, choice second rest]

/-- The type of a mention of a binding. -/
def Binding.type : Binding → Ty
  | .free name => .var name
  | .enclosing head => applyTo head.name head.params

namespace Expr

mutual
/-- The Reason type of an expression. -/
def toReason (env : Env) : Expr → Except Fault Ty
  | .void => .ok (.app Reason.voidDecl.name [])
  | .unit => .ok .unit
  | .var index => do
    let binding ← env.lookup index
    .ok binding.type
  | .sum first second rest => do
    let t ← toReason env first
    let u ← toReason env second
    let us ← toReasonAll env rest
    .ok (choice t (u :: us))
  | .product first second rest => do
    let t ← toReason env first
    let u ← toReason env second
    let us ← toReasonAll env rest
    .ok (.tuple (t :: u :: us))
  | .recursive name ctors => do
    let params ← Expr.params env (.recursive name ctors)
    .ok (applyTo name params)
  | .named name body => do
    let params ← Expr.params env (.named name body)
    .ok (applyTo name params)
  | .foreign value => .error (.notExpression value)

/-- The Reason types of expressions. -/
def toReasonAll (env : Env) : List Expr → Except Fault (List Ty)
  | [] => .ok []
  | e :: es => do
    let t ← toReason env e
    let ts ← toReasonAll env es
    .ok (t :: ts)
end

/-- The constructors with the Reason types of their payloads. -/
def toReasonCtors (env : Env) : List (Ctor Expr) → Except Fault (List (Ctor Ty))
  | [] => .ok []
  | ⟨name, e⟩ :: ctors => do
    let t ← e.toReason env
    let ts ← toReasonCtors env ctors
    .ok (⟨name, t⟩ :: ts)

end Expr

/-- The identifiers whose declarations have been collected. -/
structure Collected where
  idents : List String := []
deriving Repr

namespace Collected

/-- Whether a type of this name has been collected. -/
def contains (c : Collected) (name : String) : Bool :=
  c.idents.contains (typeIdent name)

/-- The identifiers with that of `name`. -/
def mark (c : Collected) (name : String) : Collected :=
  if c.contains name then c else ⟨typeIdent name :: c.idents⟩

/-- Collects a generated declaration, unless there is one of its name. -/
def addGenerated (c : Collected) (d : Decl) : List Decl × Collected :=
  if c.contains d.name then ([], c) else ([d], c.mark d.name)

end Collected

namespace Expr

mutual
/-- The declarations that an expression needs and that have not been collected before, each before
those that are first met in its body. -/
def collect (env : Env) : Expr → Collected → Except Fault (List Decl × Collected)
  | .void, c => .ok (c.addGenerated Reason.voidDecl)
  | .unit, c => .ok ([], c)
  | .var _, c => .ok ([], c)
  | .sum first second rest, c => do
    let (ds, c) ← collect env first c
    let (es, c) ← collect env second c
    let (fs, c) ← collectAll env rest c
    let (gs, c) := c.addGenerated Reason.eitherDecl
    .ok (ds ++ es ++ fs ++ gs, c)
  | .product first second rest, c => do
    let (ds, c) ← collect env first c
    let (es, c) ← collect env second c
    let (fs, c) ← collectAll env rest c
    .ok (ds ++ es ++ fs, c)
  | .recursive name ctors, c => do
    if c.contains name then .ok ([], c)
    else
      let params ← Expr.params env (.recursive name ctors)
      let inner := .enclosing ⟨name, params⟩ :: env
      let variants ← toReasonCtors inner ctors
      let (ds, c) ← collectCtors inner ctors (c.mark name)
      .ok (.variant ⟨name, params⟩ variants :: ds, c)
  | .named name body, c => do
    if c.contains name then .ok ([], c)
    else
      let params ← Expr.params env (.named name body)
      let t ← toReason env body
      let (ds, c) ← collect env body (c.mark name)
      .ok (.synonym ⟨name, params⟩ t :: ds, c)
  | .foreign value, _ => .error (.notExpression value)

/-- The declarations that expressions need, one after the other. -/
def collectAll (env : Env) : List Expr → Collected → Except Fault (List Decl × Collected)
  | [], c => .ok ([], c)
  | e :: es, c => do
    let (ds, c) ← collect env e c
    let (fs, c) ← collectAll env es c
    .ok (ds ++ fs, c)

/-- The declarations that the payloads of constructors need, one after the other. -/
def collectCtors (env : Env) : List (Ctor Expr) → Collected → Except Fault (List Decl × Collected)
  | [], c => .ok ([], c)
  | ⟨_, e⟩ :: ctors, c => do
    let (ds, c) ← collect env e c
    let (fs, c) ← collectCtors env ctors c
    .ok (ds ++ fs, c)
end

/-- The declarations that an expression needs, each after those that are first met in its body. -/
def declarations (env : Env) (e : Expr) : Except Fault (List Decl) := do
  let (ds, _) ← e.collect env {}
  .ok ds.reverse

end Expr

end TypeDesc
