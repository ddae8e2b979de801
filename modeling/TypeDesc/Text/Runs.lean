/-
Classes of characters given by boundaries: the ascending code points at which
membership changes, starting outside the class. The tables of this folder are
lists of such points.
-/

namespace TypeDesc.Text

/-- Whether `n` lies in the class whose membership changes at `bounds`. -/
def inRuns (n : Nat) : List Nat → Bool
  | [] => false
  | b :: bounds => if n < b then false else !inRuns n bounds

end TypeDesc.Text
