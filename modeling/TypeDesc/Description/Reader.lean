/-
Reading a description from its tokens:

    description = [ "params" name { "," name } ] sum end
    sum         = product { "+" product }
    product     = factor { "*" factor }
    factor      = "void" | "unit" | name | "(" sum ")"
                | "rec" name "{" [ ctor { "," ctor } [ "," ] ] "}"
                | "alias" name "{" sum "}"
    ctor        = name [ ":" sum ]

The reader takes one token at a time. Its focus says what may come next; the
levels around the focus hold the expressions that an opening parenthesis or
brace has interrupted. A name is resolved to an index when it is met, and what
is wrong with names is reported at the token that shows it, so that a token
that does not fit the grammar comes after the reports on all tokens before it.

The last token of a list stays in view: when the list ends before the grammar
does, that token is taken again until it does not fit.
-/
import TypeDesc.Description.Basic
import TypeDesc.Finding
import TypeDesc.Identifier
import TypeDesc.Reason.Basic
import TypeDesc.Text.Similarity
import TypeDesc.Token.Scan

namespace TypeDesc

/-! ## The state of the reader -/

/-- A recursive type whose constructors are being read. -/
structure OpenType where
  name : Word
  ctors : List (Ctor Expr) := []
deriving DecidableEq, Repr

namespace OpenType

/-- The type with one more constructor. -/
def add (o : OpenType) (ctor : String) (payload : Expr) : OpenType :=
  { o with ctors := o.ctors ++ [⟨ctor, payload⟩] }

/-- The type once all constructors are read. -/
def close (o : OpenType) : Expr :=
  .recursive o.name.text o.ctors

end OpenType

/-- What an expression that is being read stands in. -/
inductive Enclosure
  | parens
  /-- The payload of a constructor. -/
  | payload (type : OpenType) (ctor : String)
  /-- The body of a named type. -/
  | body (name : Word)
deriving DecidableEq, Repr

/-- The part of a sum that has been read: whole summands, and factors of the current one. -/
structure Terms where
  summands : List Expr := []
  factors : List Expr := []
deriving DecidableEq, Repr

namespace Terms

/-- A product that ends with `last`. -/
def closeProduct (factors : List Expr) (last : Expr) : Expr :=
  match factors with
  | [] => last
  | first :: more => .productOf first (more ++ [last])

/-- A sum that ends with `last`. -/
def closeSum (summands : List Expr) (last : Expr) : Expr :=
  match summands with
  | [] => last
  | first :: more => .sumOf first (more ++ [last])

/-- The expression that ends with the factor `last`. -/
def close (terms : Terms) (last : Expr) : Expr :=
  closeSum terms.summands (closeProduct terms.factors last)

/-- The terms after the factor `last` and a star. -/
def star (terms : Terms) (last : Expr) : Terms :=
  { terms with factors := terms.factors ++ [last] }

/-- The terms after the factor `last` and a plus. -/
def plus (terms : Terms) (last : Expr) : Terms :=
  { summands := terms.summands ++ [closeProduct terms.factors last] }

end Terms

/-- An opening parenthesis or brace that is not closed yet, and the terms that it interrupted. -/
structure Level where
  enclosure : Enclosure
  outer : Terms
deriving DecidableEq, Repr

namespace Level

/-- The name that a level brings into scope: that of a recursive type inside its constructors. -/
def name? (level : Level) : Option String :=
  match level.enclosure with
  | .payload type _ => some type.name.text
  | _ => none

/-- The names of the recursive types that levels are inside of, the innermost first. -/
def names (levels : List Level) : List String :=
  levels.filterMap name?

end Level

/-- What the reader is at. -/
inductive Focus
  | start
  | paramName
  | paramEnd
  | operand
  /-- A factor has been read. -/
  | operator (last : Expr)
  | recName
  | bodyName
  | recOpen (name : Word)
  | bodyOpen (name : Word)
  | ctorName (type : OpenType)
  | ctorEnd (type : OpenType) (ctor : String)
deriving DecidableEq, Repr

/-- A recursive or named type that has been read. -/
structure Declared where
  name : Word
  type : Expr
deriving DecidableEq, Repr

/-- What is noted about names while an expression is read. -/
structure Notes where
  /-- The positions of the parameters mentioned so far. -/
  used : List Nat := []
  /-- The first declaration of each type identifier. -/
  declared : List Declared := []
  reports : List Report := []
deriving DecidableEq, Repr

/-- The state of the reader. -/
structure Reader where
  focus : Focus := .start
  terms : Terms := {}
  levels : List Level := []
  params : List Word := []
  notes : Notes := {}
  /-- Where the expression of the description starts. -/
  bodyStart : Option Span := none
deriving DecidableEq, Repr

/-- What becomes of the reader at a token. -/
inductive Step
  | next (reader : Reader)
  /-- The description ends here. -/
  | done (body : Expr)
  /-- The token does not fit. -/
  | stop (expected : Expected)

/-! ## Names -/

/-- The type that `name` stands for: its first place in the scope, or unit if it has none. -/
def Expr.ofName (scope : List String) (name : String) : Expr :=
  match scope.idxOf? name with
  | some index => .var index
  | none => .unit

namespace Notes

/-- The notes with a finding reported at `span`. -/
def report (n : Notes) (finding : Finding) (span : Span) : Notes :=
  { n with reports := n.reports ++ [.located finding span] }

/-- The notes with the parameter at `index`, if it is one, as mentioned; the `depth` indices below
the parameters are those of the recursive types around. -/
def use (n : Notes) (depth index : Nat) : Notes :=
  if depth ≤ index then { n with used := (index - depth) :: n.used } else n

/-- Notes a name that is used as a type. One that is not in scope is reported. -/
def mention (n : Notes) (enclosing params : List String) (word : Word) : Notes :=
  match (enclosing ++ params).idxOf? word.text with
  | some index => n.use enclosing.length index
  | none =>
    n.report (.unknownVariable word.text (Text.closest? word.text (enclosing ++ params))) word.span

/-- Reports a parameter that makes the same identifier as one of the `earlier` ones. -/
def checkParam (n : Notes) (earlier : List Word) (word : Word) : Notes :=
  match earlier.find? fun param => typeIdent param.text == typeIdent word.text with
  | some param => n.report (.duplicateParam word.text param.text) word.span
  | none => n

/-- Reports a type name that is kept for a generated type. -/
def checkTypeName (n : Notes) (word : Word) : Notes :=
  if typeIdent word.text ∈ Reason.generatedIdents then
    n.report (.reservedName word.text (typeIdent word.text)) word.span
  else n

/-- Reports a constructor name that cannot be one, or that its type already has. -/
def checkCtorName (n : Notes) (type : OpenType) (word : Word) : Notes :=
  if !startsWithLetter word.text then n.report (.badCtor word.text) word.span
  else if type.ctors.any fun ctor => ctorIdent ctor.name == ctorIdent word.text then
    n.report (.duplicateCtor word.text type.name.text) word.span
  else n

/-- Records a type that has been read, or reports how it differs from the first one of its
identifier. -/
def record (n : Notes) (name : Word) (type : Expr) : Notes :=
  let ident := typeIdent name.text
  match n.declared.find? fun d => typeIdent d.name.text == ident with
  | none => { n with declared := n.declared ++ [⟨name, type⟩] }
  | some earlier =>
    if earlier.name.text ≠ name.text then
      n.report (.sameIdent name.text earlier.name.text ident) name.span
    else if earlier.type ≠ type then n.report (.redeclared name.text) name.span
    else n

/-- The reports on parameters that are not mentioned. -/
def unusedParams (n : Notes) (params : List Word) : List Report :=
  (params.zipIdx.filter fun (_, i) => !n.used.contains i).map fun (word, _) =>
    .located (.unusedParam word.text) word.span

end Notes

namespace Reader

/-- The names of the recursive types around the focus, the innermost first. -/
def enclosing (r : Reader) : List String :=
  Level.names r.levels

/-- The names of the parameters. -/
def paramNames (r : Reader) : List String :=
  r.params.map (·.text)

/-- Takes a name as a type. -/
def resolve (r : Reader) (word : Word) : Reader :=
  { r with
    focus := .operator (.ofName (r.enclosing ++ r.paramNames) word.text)
    notes := r.notes.mention r.enclosing r.paramNames word }

/-- Takes a parameter. -/
def addParam (r : Reader) (word : Word) : Reader :=
  { r with
    focus := .paramEnd, params := r.params ++ [word], notes := r.notes.checkParam r.params word }

/-! ## One token -/

/-- Opens a level around the next expression. -/
def enter (r : Reader) (enclosure : Enclosure) : Reader :=
  { r with focus := .operand, terms := {}, levels := ⟨enclosure, r.terms⟩ :: r.levels }

/-- Goes back to the terms that the innermost level interrupted. -/
def leave (r : Reader) (focus : Focus) (outer : Terms) (levels : List Level) : Reader :=
  { r with focus := focus, terms := outer, levels := levels }

/-- Ends a recursive type. -/
def closeType (r : Reader) (type : OpenType) : Reader :=
  { r with focus := .operator type.close, notes := r.notes.record type.name type.close }

/-- Ends a named type. -/
def closeBody (r : Reader) (name : Word) (body : Expr) : Reader :=
  { r with
    focus := .operator (.named name.text body)
    notes := r.notes.record name (.named name.text body) }

/-- Takes a token where a type must start. -/
def operand (r : Reader) (t : Token) : Step :=
  match t.kind with
  | .void => .next { r with focus := .operator .void }
  | .unit => .next { r with focus := .operator .unit }
  | .identifier => .next (r.resolve t.word)
  | .openParen => .next (r.enter .parens)
  | .recKeyword => .next { r with focus := .recName }
  | .aliasKeyword => .next { r with focus := .bodyName }
  | _ => .stop .typeStart

/-- Takes the token that starts the expression of the description. -/
def beginBody (r : Reader) (t : Token) : Step :=
  { r with bodyStart := some t.span }.operand t

/-- Takes a token after a constructor, whose payload is `payload`. -/
def afterCtor (r : Reader) (type : OpenType) (ctor : String) (payload : Expr) (t : Token) : Step :=
  match t.kind with
  | .comma => .next { r with focus := .ctorName (type.add ctor payload) }
  | .closeBrace => .next (r.closeType (type.add ctor payload))
  | _ => .stop .ctorEnd

/-- Takes a token after the factor `last` that is neither a star nor a plus. -/
def closing (r : Reader) (last : Expr) (t : Token) : Step :=
  match r.levels with
  | [] => if t.kind = .endOfInput then .done (r.terms.close last) else .stop .endOfInput
  | ⟨.parens, outer⟩ :: levels =>
    if t.kind = .closeParen then .next (r.leave (.operator (r.terms.close last)) outer levels)
    else .stop .closeParen
  | ⟨.payload type ctor, outer⟩ :: levels =>
    (r.leave .operand outer levels).afterCtor type ctor (r.terms.close last) t
  | ⟨.body name, outer⟩ :: levels =>
    if t.kind = .closeBrace then
      .next ((r.leave .operand outer levels).closeBody name (r.terms.close last))
    else .stop .closeBrace

/-- Takes one token. -/
def step (r : Reader) (t : Token) : Step :=
  match r.focus with
  | .start =>
    if t.kind = .paramsKeyword then .next { r with focus := .paramName } else r.beginBody t
  | .paramName => if t.kind = .identifier then .next (r.addParam t.word) else .stop .paramName
  | .paramEnd => if t.kind = .comma then .next { r with focus := .paramName } else r.beginBody t
  | .operand => r.operand t
  | .operator last =>
    match t.kind with
    | .star => .next { r with focus := .operand, terms := r.terms.star last }
    | .plus => .next { r with focus := .operand, terms := r.terms.plus last }
    | _ => r.closing last t
  | .recName =>
    if t.kind = .identifier then
      .next { r with focus := .recOpen t.word, notes := r.notes.checkTypeName t.word }
    else .stop .typeName
  | .bodyName =>
    if t.kind = .identifier then
      .next { r with focus := .bodyOpen t.word, notes := r.notes.checkTypeName t.word }
    else .stop .typeName
  | .recOpen name =>
    if t.kind = .openBrace then .next { r with focus := .ctorName { name } } else .stop .openBrace
  | .bodyOpen name => if t.kind = .openBrace then .next (r.enter (.body name)) else .stop .openBrace
  | .ctorName type =>
    match t.kind with
    | .closeBrace => .next (r.closeType type)
    | .identifier =>
      .next { r with focus := .ctorEnd type t.text, notes := r.notes.checkCtorName type t.word }
    | _ => .stop .ctorName
  | .ctorEnd type ctor =>
    match t.kind with
    | .colon => .next (r.enter (.payload type ctor))
    | _ => r.afterCtor type ctor .unit t

/-! ## All tokens -/

/-- The reports with that of the token that does not fit. -/
def stopped (r : Reader) (expected : Expected) (t : Token) : List Report :=
  r.notes.reports ++ [.located (.unexpected expected t.text) t.span]

/-- The description that ends here with `body`, its last token being at `last`, and its warnings;
or all reports, if one of them is an error. -/
def finish (r : Reader) (file : String) (body : Expr) (last : Span) :
    Except (List Report) (Description × List Report) :=
  let reports := r.notes.reports ++ r.notes.unusedParams r.params
  if reports.any (·.isError) then .error reports
  else
    .ok ({ params := r.paramNames
           body
           span := .between file (r.bodyStart.getD last) last
           names := r.notes.declared.map fun d => (d.name.text, d.name.span) }, reports)

/-- Takes the last token of a list again until it does not fit. It fits at most once for each open
level and twice more, unless it opens a level itself: an opening parenthesis at the end fits each
time, the bound runs out, and the report given then only stands for a reading that has no end. -/
def takeAgain (r : Reader) (t : Token) : Nat → List Report
  | 0 => r.stopped .typeStart t
  | bound + 1 =>
    match r.step t with
    | .next r' => r'.takeAgain t bound
    | .stop expected => r.stopped expected t
    | .done _ => r.stopped .endOfInput t

/-- Takes the token `t` and those after it; `last` is the place of the token before. -/
def run (file : String) (r : Reader) (last : Span) (t : Token) :
    List Token → Except (List Report) (Description × List Report)
  | [] =>
    match r.step t with
    | .done body => r.finish file body last
    | .stop expected => .error (r.stopped expected t)
    | .next r' => .error (r'.takeAgain t (r'.levels.length + 3))
  | t' :: ts =>
    match r.step t with
    | .done body => r.finish file body last
    | .stop expected => .error (r.stopped expected t)
    | .next r' => run file r' t.span t' ts

end Reader

/-- Why a description cannot be read. -/
inductive ReadError
  | noTokens
  | rejected (reports : List Report)
deriving DecidableEq, Repr

namespace Description

/-- The description that a list of tokens makes, with its warnings. -/
def ofTokens (file : String) : List Token → Except ReadError (Description × List Report)
  | [] => .error .noTokens
  | t :: ts => (Reader.run file {} t.span t ts).mapError .rejected

/-- The description in a text, with its warnings. -/
def ofSource (file source : String) : Except ReadError (Description × List Report) := do
  let tokens ← (Token.scan file source).mapError .rejected
  ofTokens file tokens

end Description

end TypeDesc
