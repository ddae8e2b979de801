/-
Constructors of a recursive type or of a declared variant: a name and the type
of what it carries.
-/

namespace TypeDesc

/-- A constructor that carries a `τ`. -/
structure Ctor (τ : Type) where
  name : String
  payload : τ
deriving DecidableEq, Repr

end TypeDesc
