/-
Diagnostics: what is reported about a description. A diagnostic has a severity,
a code, a message, places that it points at, replacements for the text at the
first of them, and notes.
-/
import TypeDesc.Span

namespace TypeDesc

/-- How grave a diagnostic is. -/
inductive Severity
  | error
  | warning
deriving DecidableEq, Repr

/-- The word that names a severity. -/
def Severity.word : Severity → String
  | .error => "error"
  | .warning => "warning"

/-- A place, with a message that may be empty. -/
structure Label where
  span : Span
  message : String := ""
deriving DecidableEq, Repr

/-- A replacement for the text under the first label. -/
structure Suggestion where
  message : String
  replacement : String
deriving DecidableEq, Repr

/-- A report about a description. -/
structure Diagnostic where
  severity : Severity
  code : String
  message : String
  labels : List Label := []
  suggestions : List Suggestion := []
  notes : List String := []
deriving DecidableEq, Repr

/-- Whether the diagnostic is an error. -/
def Diagnostic.isError (d : Diagnostic) : Bool :=
  d.severity == .error

end TypeDesc
