/-
Findings: everything that reading a description and emitting its declarations
can report, as causes. The code, the severity and the wording of each stand in
one place; a report adds where it was found.
-/
import TypeDesc.Diagnostic
import TypeDesc.Text.Quoted

namespace TypeDesc

/-- What the grammar asks for at a token that does not fit. -/
inductive Expected
  | paramName
  | typeStart
  | typeName
  | openBrace
  | ctorName
  | ctorEnd
  | closeBrace
  | closeParen
  | endOfInput
deriving DecidableEq, Repr

/-- The words for what was expected. -/
def Expected.words : Expected → String
  | .paramName => "parameter name"
  | .typeStart => "a type"
  | .typeName => "type name"
  | .openBrace => "'\x7b'"
  | .ctorName => "constructor name"
  | .ctorEnd => "',' or '\x7d'"
  | .closeBrace => "'\x7d'"
  | .closeParen => "')'"
  | .endOfInput => "end of input"

/-- A cause to report. -/
inductive Finding
  /-- A character that belongs to no token. -/
  | strayChar (c : Char)
  /-- A token, given by its text, where the grammar asks for something else. -/
  | unexpected (expected : Expected) (found : String)
  /-- A variable that nothing binds, with the name in scope that is most like it. -/
  | unknownVariable (name : String) (closest : Option String)
  /-- A parameter that makes the same identifier as an earlier one. -/
  | duplicateParam (name earlier : String)
  /-- A type name kept for a generated type. -/
  | reservedName (name : String) (ident : String)
  /-- A constructor that makes the same identifier as an earlier one of its type. -/
  | duplicateCtor (ctor type : String)
  /-- A constructor that does not start with a letter. -/
  | badCtor (ctor : String)
  /-- Two type names of different spelling that make the same identifier. -/
  | sameIdent (name earlier : String) (ident : String)
  /-- A parameter that the body does not mention. -/
  | unusedParam (name : String)
  /-- A type that is declared a second time with another body. -/
  | redeclared (name : String)
  /-- A declared type with the identifier of the top-level alias. -/
  | topClash (name top : String)
deriving DecidableEq, Repr

namespace Finding

/-- The code that names the kind of a finding. -/
def code : Finding → String
  | .strayChar _ => "E100"
  | .unexpected .. => "E200"
  | .unknownVariable .. => "E201"
  | .duplicateParam .. => "E202"
  | .reservedName .. => "E203"
  | .duplicateCtor .. => "E204"
  | .badCtor _ => "E205"
  | .sameIdent .. => "E206"
  | .unusedParam _ => "W300"
  | .redeclared _ => "W301"
  | .topClash .. => "E400"

/-- How grave a finding is. -/
def severity : Finding → Severity
  | .unusedParam _ | .redeclared _ => .warning
  | _ => .error

/-- `text` between plain quotes. -/
def inQuotes (text : String) : String :=
  "'" ++ text ++ "'"

/-- The wording of a finding. -/
def message : Finding → String
  | .strayChar c => "unexpected character " ++ Text.quoted (String.ofList [c])
  | .unexpected expected found =>
    "expected " ++ expected.words ++ ", got " ++
      (if found = "" then "end of input" else Text.quoted found)
  | .unknownVariable name _ => "unknown type variable " ++ inQuotes name
  | .duplicateParam name earlier =>
    "duplicate parameter " ++ inQuotes name ++
      (if earlier = name then "" else " (same as " ++ inQuotes earlier ++ ")")
  | .reservedName name ident =>
    inQuotes name ++ " is reserved for the generated " ++ inQuotes ident ++ " type"
  | .duplicateCtor ctor type => "duplicate constructor " ++ inQuotes ctor ++ " in " ++ inQuotes type
  | .badCtor ctor => "constructor " ++ inQuotes ctor ++ " must start with a letter"
  | .sameIdent name earlier ident =>
    inQuotes name ++ " and " ++ inQuotes earlier ++ " are both emitted as type " ++ inQuotes ident
  | .unusedParam name => "parameter " ++ inQuotes name ++ " is never used"
  | .redeclared name =>
    inQuotes name ++
      " is declared again with a different body; only the first declaration is emitted"
  | .topClash name top =>
    "type " ++ inQuotes name ++ " clashes with the top-level alias " ++ inQuotes top

/-- The message shown beside the place of a finding. -/
def labelMessage : Finding → String
  | .topClash .. => "declared here"
  | _ => ""

/-- The replacements that a finding offers. -/
def suggestions : Finding → List Suggestion
  | .unknownVariable _ (some name) => [⟨"did you mean " ++ inQuotes name ++ "?", name⟩]
  | _ => []

/-- The notes of a finding. -/
def notes : Finding → List String
  | .topClash .. => ["rename the type or choose another top_name"]
  | _ => []

end Finding

/-- A finding and its place, if it has one. -/
structure Report where
  finding : Finding
  span : Option Span
deriving DecidableEq, Repr

namespace Report

/-- The report of a finding at a place. -/
def located (finding : Finding) (span : Span) : Report :=
  ⟨finding, some span⟩

/-- Whether the report is of an error. -/
def isError (r : Report) : Bool :=
  r.finding.severity == .error

/-- The diagnostic that tells a report. -/
def diagnostic (r : Report) : Diagnostic where
  severity := r.finding.severity
  code := r.finding.code
  message := r.finding.message
  labels := r.span.toList.map fun span => ⟨span, r.finding.labelMessage⟩
  suggestions := r.finding.suggestions
  notes := r.finding.notes

end Report

end TypeDesc
