/-
The algebra of types: void and unit, sums and products of two or more types,
variables by index, recursive types and named types.

A variable is an index into the types bound around it, the innermost at zero.
The constructors of a recursive type are inside its own binding, so that index
zero there means the type itself. A named type binds nothing.
-/
import TypeDesc.Ctor
import TypeDesc.Fault

namespace TypeDesc

/-- A type expression. A foreign value is no type; every operation refuses it where it meets it. -/
inductive Expr
  | void
  | unit
  | var (index : Nat)
  | sum (first second : Expr) (rest : List Expr)
  | product (first second : Expr) (rest : List Expr)
  | recursive (name : String) (ctors : List (Ctor Expr))
  | named (name : String) (body : Expr)
  | foreign (value : Scalar)
deriving Repr

namespace Expr

/-! ## Equality -/

mutual
/-- Whether two expressions are the same. -/
def same : Expr → Expr → Bool
  | .void, .void => true
  | .unit, .unit => true
  | .var i, .var j => i == j
  | .sum a b more, .sum a' b' more' => same a a' && same b b' && sameAll more more'
  | .product a b more, .product a' b' more' => same a a' && same b b' && sameAll more more'
  | .recursive n cs, .recursive n' cs' => n == n' && sameCtors cs cs'
  | .named n e, .named n' e' => n == n' && same e e'
  | .foreign v, .foreign v' => v == v'
  | _, _ => false

/-- Whether two lists of expressions are the same. -/
def sameAll : List Expr → List Expr → Bool
  | [], [] => true
  | e :: es, e' :: es' => same e e' && sameAll es es'
  | _, _ => false

/-- Whether two lists of constructors are the same. -/
def sameCtors : List (Ctor Expr) → List (Ctor Expr) → Bool
  | [], [] => true
  | ⟨n, e⟩ :: cs, ⟨n', e'⟩ :: cs' => n == n' && same e e' && sameCtors cs cs'
  | _, _ => false
end

mutual
theorem same_iff : (e e' : Expr) → (same e e' = true ↔ e = e')
  | .void, e' => by cases e' <;> simp [same]
  | .unit, e' => by cases e' <;> simp [same]
  | .var i, e' => by cases e' <;> simp [same]
  | .sum a b more, e' => by
    cases e' <;> simp [same, same_iff a, same_iff b, sameAll_iff more, and_assoc]
  | .product a b more, e' => by
    cases e' <;> simp [same, same_iff a, same_iff b, sameAll_iff more, and_assoc]
  | .recursive n cs, e' => by cases e' <;> simp [same, sameCtors_iff cs]
  | .named n e, e' => by cases e' <;> simp [same, same_iff e]
  | .foreign v, e' => by cases e' <;> simp [same]

theorem sameAll_iff : (es es' : List Expr) → (sameAll es es' = true ↔ es = es')
  | [], es' => by cases es' <;> simp [sameAll]
  | e :: es, es' => by cases es' <;> simp [sameAll, same_iff e, sameAll_iff es]

theorem sameCtors_iff : (cs cs' : List (Ctor Expr)) → (sameCtors cs cs' = true ↔ cs = cs')
  | [], cs' => by cases cs' <;> simp [sameCtors]
  | ⟨n, e⟩ :: cs, cs' => by
    cases cs' with
    | nil => simp [sameCtors]
    | cons c cs' => cases c; simp [sameCtors, same_iff e, sameCtors_iff cs]
end

instance : DecidableEq Expr := fun e e' => decidable_of_iff _ (same_iff e e')

/-! ## Building -/

/-- The sum of `first` and the types after it; `first` itself if there are none. -/
def sumOf (first : Expr) : List Expr → Expr
  | [] => first
  | second :: rest => .sum first second rest

/-- The product of `first` and the types after it; `first` itself if there are none. -/
def productOf (first : Expr) : List Expr → Expr
  | [] => first
  | second :: rest => .product first second rest

/-- A sum of the given types, of which there must be at least two. -/
def sum? : List Expr → Except Fault Expr
  | first :: second :: rest => .ok (.sum first second rest)
  | items => .error (.fewSummands items.length)

/-- A product of the given types, of which there must be at least two. -/
def product? : List Expr → Except Fault Expr
  | first :: second :: rest => .ok (.product first second rest)
  | items => .error (.fewFactors items.length)

/-- A variable by a signed index, which must not be negative. -/
def var? (index : Int) : Except Fault Expr :=
  if index < 0 then .error (.negativeIndex index) else .ok (.var index.toNat)

/-- The name of a recursive or a named type. -/
def name? : Expr → Option String
  | .recursive name _ => some name
  | .named name _ => some name
  | _ => none

end Expr

end TypeDesc
