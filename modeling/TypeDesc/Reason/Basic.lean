/-
Types and declarations of the Reason language, as far as descriptions need them:
unit, tuples, type variables, applied types, and two kinds of declaration.
-/
import TypeDesc.Ctor
import TypeDesc.Scalar

namespace TypeDesc

/-- The head of a declaration: a type name and its parameters in order. -/
structure Head where
  name : String
  params : List String
deriving DecidableEq, Repr

namespace Reason

/-- A Reason type. A foreign value is no type; the printer refuses it. -/
inductive Ty
  | unit
  | tuple (items : List Ty)
  | var (name : String)
  | app (name : String) (args : List Ty)
  | foreign (value : Scalar)
deriving Repr

namespace Ty

mutual
/-- Whether two types are the same. -/
def same : Ty → Ty → Bool
  | .unit, .unit => true
  | .tuple ts, .tuple ts' => sameAll ts ts'
  | .var n, .var n' => n == n'
  | .app n ts, .app n' ts' => n == n' && sameAll ts ts'
  | .foreign v, .foreign v' => v == v'
  | _, _ => false

/-- Whether two lists of types are the same. -/
def sameAll : List Ty → List Ty → Bool
  | [], [] => true
  | t :: ts, t' :: ts' => same t t' && sameAll ts ts'
  | _, _ => false
end

mutual
theorem same_iff : (t t' : Ty) → (same t t' = true ↔ t = t')
  | .unit, t' => by cases t' <;> simp [same]
  | .tuple ts, t' => by cases t' <;> simp [same, sameAll_iff ts]
  | .var n, t' => by cases t' <;> simp [same]
  | .app n ts, t' => by cases t' <;> simp [same, sameAll_iff ts]
  | .foreign v, t' => by cases t' <;> simp [same]

theorem sameAll_iff : (ts ts' : List Ty) → (sameAll ts ts' = true ↔ ts = ts')
  | [], ts' => by cases ts' <;> simp [sameAll]
  | t :: ts, ts' => by cases ts' <;> simp [sameAll, same_iff t, sameAll_iff ts]
end

instance : DecidableEq Ty := fun t t' => decidable_of_iff _ (same_iff t t')

mutual
/-- The names of the types applied anywhere in a type, from left to right. -/
def applied : Ty → List String
  | .tuple ts => appliedAll ts
  | .app n ts => n :: appliedAll ts
  | _ => []

/-- The names of the types applied anywhere in a list of types. -/
def appliedAll : List Ty → List String
  | [] => []
  | t :: ts => applied t ++ appliedAll ts
end

end Ty

/-- A declaration. A variant without constructors has no values. -/
inductive Decl
  /-- Another name for a type. -/
  | synonym (head : Head) (body : Ty)
  /-- A type with constructors of its own. -/
  | variant (head : Head) (ctors : List (Ctor Ty))
deriving DecidableEq, Repr

/-- The head of a declaration. -/
def Decl.head : Decl → Head
  | .synonym head _ => head
  | .variant head _ => head

/-- The name of the declared type. -/
def Decl.name (d : Decl) : String :=
  d.head.name

/-- The empty type, which stands for the type expression void. -/
def voidDecl : Decl :=
  .variant ⟨"void", []⟩ []

/-- The choice between two types, from which every sum is made. -/
def eitherDecl : Decl :=
  .variant ⟨"either", ["a", "b"]⟩ [⟨"Left", .var "a"⟩, ⟨"Right", .var "b"⟩]

/-- The types that are generated when they are needed, so that no description may declare them. -/
def generatedIdents : List String :=
  [voidDecl.name, eitherDecl.name]

end Reason

end TypeDesc
