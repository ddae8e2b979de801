/-
The types bound around an expression, and the type parameters that an expression
depends on: the free variables it mentions, and for each mention of an enclosing
declaration the parameters of that declaration.
-/
import TypeDesc.Expr.Basic
import TypeDesc.Reason.Basic

namespace TypeDesc

/-- What an index may refer to. -/
inductive Binding
  /-- A type parameter. -/
  | free (name : String)
  /-- The type that is being declared around the expression. -/
  | enclosing (head : Head)
deriving DecidableEq, Repr

/-- The parameters that a mention of the binding depends on. -/
def Binding.params : Binding → List String
  | .free name => [name]
  | .enclosing head => head.params

/-- The bindings around an expression, the innermost first. -/
abbrev Env := List Binding

namespace Env

/-- The environment of type parameters only. -/
def ofParams (names : List String) : Env :=
  names.map .free

/-- The binding at an index. -/
def lookup (env : Env) (index : Int) : Except Fault Binding :=
  if index < 0 then .error (.unbound index env.length)
  else
    match env[index.toNat]? with
    | some binding => .ok binding
    | none => .error (.unbound index env.length)

end Env

/-- `i` put into an ascending list, once. -/
def insertIndex (i : Nat) : List Nat → List Nat
  | [] => [i]
  | j :: js =>
    if i < j then i :: j :: js
    else if i = j then j :: js
    else j :: insertIndex i js

/-- The indices of either list, ascending if the second list is. -/
def unionIndices (is js : List Nat) : List Nat :=
  is.foldr insertIndex js

/-- Indices seen from outside a binding: the binding's own is left out. -/
def leaveBinding (is : List Nat) : List Nat :=
  (is.filter (0 < ·)).map (· - 1)

namespace Expr

mutual
/-- The indices that an expression mentions, ascending, seen from where it stands. -/
def indices : Expr → Except Fault (List Nat)
  | .void => .ok []
  | .unit => .ok []
  | .var index => .ok [index]
  | .sum first second rest => do
    let is ← indices first
    let js ← indices second
    let ks ← indicesAll rest
    .ok (unionIndices is (unionIndices js ks))
  | .product first second rest => do
    let is ← indices first
    let js ← indices second
    let ks ← indicesAll rest
    .ok (unionIndices is (unionIndices js ks))
  | .recursive _ ctors => do
    let is ← indicesCtors ctors
    .ok (leaveBinding is)
  | .named _ body => indices body
  | .foreign value => .error (.notExpression value)

/-- The indices that some of the expressions mentions. -/
def indicesAll : List Expr → Except Fault (List Nat)
  | [] => .ok []
  | e :: es => do
    let is ← indices e
    let js ← indicesAll es
    .ok (unionIndices is js)

/-- The indices that the payload of some of the constructors mentions. -/
def indicesCtors : List (Ctor Expr) → Except Fault (List Nat)
  | [] => .ok []
  | ⟨_, e⟩ :: ctors => do
    let is ← indices e
    let js ← indicesCtors ctors
    .ok (unionIndices is js)
end

end Expr

/-- `names` with those of `more` that are new put behind them. -/
def addNew (names : List String) : List String → List String
  | [] => names
  | name :: more => addNew (if name ∈ names then names else names ++ [name]) more

/-- `names` with the new parameters of the bindings at the given indices put behind them. -/
def Env.addParams (env : Env) (names : List String) : List Nat → Except Fault (List String)
  | [] => .ok names
  | index :: indices => do
    let binding ← env.lookup index
    Env.addParams env (addNew names binding.params) indices

/-- The parameters that `e` depends on, those of the innermost bindings first. -/
def Expr.params (env : Env) (e : Expr) : Except Fault (List String) := do
  let indices ← e.indices
  env.addParams [] indices

end TypeDesc
