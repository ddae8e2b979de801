/-
Cuts of a list at a signed place: a place below zero counts from the end, and a
place outside the list is moved to its nearer end.
-/

namespace TypeDesc.Text

/-- The place in a list of `length` items that the signed place `i` means. -/
def place (length : Nat) (i : Int) : Nat :=
  min length (if i < 0 then (length + i).toNat else i.toNat)

/-- What stands before the signed place `i`. -/
def takeTo (i : Int) (cs : List α) : List α :=
  cs.take (place cs.length i)

/-- What stands from the signed place `i` on. -/
def dropTo (i : Int) (cs : List α) : List α :=
  cs.drop (place cs.length i)

end TypeDesc.Text
