/-
Faults: misuse of the library by a caller, never the fault of a description. A
type expression is built with too few parts or a negative index, an index points
outside its environment, or a value stands where a type should.
-/
import TypeDesc.Diagnostic
import TypeDesc.Scalar

namespace TypeDesc

/-- A misuse. -/
inductive Fault
  | fewSummands (count : Nat)
  | fewFactors (count : Nat)
  | unbound (index : Int) (size : Nat)
  | negativeIndex (index : Int)
  | notExpression (value : Scalar)
  | notReasonType (value : Scalar)
  | outOfScope (index : Nat)
deriving DecidableEq, Repr

namespace Fault

/-- The code of a broken contract of the type algebra; the other faults have none. -/
def code? : Fault → Option String
  | .fewSummands _ => some "E300"
  | .fewFactors _ => some "E301"
  | .unbound .. => some "E302"
  | .negativeIndex _ => some "E303"
  | _ => none

/-- The wording of a fault. -/
def message : Fault → String
  | .fewSummands count => "sum needs at least 2 alternatives, got " ++ toString count
  | .fewFactors count => "product needs at least 2 factors, got " ++ toString count
  | .unbound index size =>
    "variable index " ++ toString index ++ " is out of range for an environment of " ++
      toString size ++ " binding(s)"
  | .negativeIndex index => "negative variable index " ++ toString index
  | .notExpression value => "not a type expression: " ++ value.shown
  | .notReasonType value => "not a Reason type: " ++ value.shown
  | .outOfScope index => "no name in scope at index " ++ toString index

/-- The diagnostic of a broken contract: it has no place. -/
def diagnostic? (fault : Fault) : Option Diagnostic :=
  fault.code?.map fun code => { severity := .error, code, message := fault.message }

end Fault

end TypeDesc
