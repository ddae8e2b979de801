/-
Documents that are open in an editor. Opening or changing a document reads it
anew and publishes the notices about it; the other requests answer from what was
last read of their own document.
-/
import TypeDesc.Description.Emission
import TypeDesc.Description.Printer
import TypeDesc.Editor.Position
import TypeDesc.Editor.Word

namespace TypeDesc.Editor

/-- What is known of an open document. -/
structure Document where
  source : String
  description : Option Description
  notices : List Notice
deriving DecidableEq, Repr

/-- The notices of diagnostics. -/
def noticesOf : List Diagnostic → Except PlaceError (List Notice)
  | [] => .ok []
  | d :: ds => do
    let notice ← Notice.ofDiagnostic d
    let notices ← noticesOf ds
    .ok (notice :: notices)

/-- What reading a text, named by its address, tells. -/
def Document.read (address source : String) : Except PlaceError Document :=
  match Description.ofSource address source with
  | .ok (d, warnings) => do
    let notices ← noticesOf (warnings.map (·.diagnostic))
    .ok ⟨source, some d, notices⟩
  | .error (.rejected reports) => do
    let notices ← noticesOf (reports.map (·.diagnostic))
    .ok ⟨source, none, notices⟩
  | .error .noTokens => .ok ⟨source, none, []⟩

/-- The open documents by their addresses. -/
structure Session where
  documents : List (String × Document) := []

namespace Session

/-- The document at an address. -/
def get? (s : Session) (address : String) : Option Document :=
  s.documents.lookup address

/-- The session without the document at an address. -/
def erase (s : Session) (address : String) : Session :=
  ⟨s.documents.filter (·.1 ≠ address)⟩

/-- The session with a document at an address. -/
def insert (s : Session) (address : String) (document : Document) : Session :=
  ⟨(address, document) :: (s.erase address).documents⟩

/-- The addresses of the open documents. -/
def addresses (s : Session) : List String :=
  s.documents.map (·.1)

end Session

/-- The text of an event that changes a document: the last of its changes, each of which is a whole
text, or the empty text. -/
def lastText (changes : List String) : String :=
  changes.getLast?.getD ""

/-- What an event or a request answers. -/
inductive Reply
  /-- Notices about the document at an address, to be shown in place of the earlier ones. -/
  | publish (address : String) (notices : List Notice)
  | nothing
  /-- A text in the markup of editors. -/
  | hover (text : String)
  /-- Names with their places. -/
  | symbols (entries : List (String × Range))
  /-- A new text for a range. -/
  | edit (range : Range) (text : String)
deriving DecidableEq, Repr

/-- Why an event or a request fails. -/
inductive SessionError
  | place (error : PlaceError)
  | fault (fault : Fault)
deriving DecidableEq, Repr

/-- An event or a request. -/
inductive Request
  | opened (address source : String)
  | changed (address : String) (changes : List String)
  | closed (address : String)
  | hover (address : String) (line character : Int)
  | symbols (address : String)
  | format (address : String)
deriving DecidableEq, Repr

namespace Document

/-- The width of lines that editors get. -/
def width : Text.Width := .columns 80

/-- The declaration of the type that a word names, in the markup of editors. -/
def hoverText (d : Description) (word : String) : Except Fault (Option String) :=
  if d.declares word || word == Reason.voidDecl.name then do
    let declaration ← d.printDeclaration width word
    .ok (declaration.map fun text => "```reason\n" ++ text ++ "\n```")
  else .ok none

/-- The answer to a request for the type at a place. -/
def hover (document : Document) (cursor : Place) : Except Fault Reply :=
  match document.description with
  | none => .ok .nothing
  | some d => do
    let word := wordAt document.source cursor.line cursor.character
    if word = "" then .ok .nothing
    else
      match ← hoverText d word with
      | none => .ok .nothing
      | some text => .ok (.hover text)

/-- Declared names with their ranges. -/
def entriesOf : List (String × Span) → Except PlaceError (List (String × Range))
  | [] => .ok []
  | (name, span) :: names => do
    let range ← Range.ofSpan span
    let entries ← entriesOf names
    .ok ((name, range) :: entries)

/-- The answer to a request for the declared names. -/
def symbols (document : Document) : Except PlaceError Reply :=
  match document.description with
  | none => .ok (.symbols [])
  | some d => do
    let entries ← entriesOf d.names
    .ok (.symbols entries)

/-- The range of the whole document: its end is the line after the last, at the length of the
last. -/
def wholeRange (document : Document) : Except PlaceError Range :=
  let lines := Text.lines document.source
  Range.between 0 0 lines.length ((lines.getLast?.map String.length).getD 0)

/-- The answer to a request to bring the document into its canonical form. -/
def format (document : Document) : Except SessionError Reply :=
  match document.description with
  | none => .ok .nothing
  | some d => do
    let text ← (d.print width).mapError .fault
    if text = document.source then .ok .nothing
    else do
      let range ← document.wholeRange.mapError .place
      .ok (.edit range text)

end Document

namespace Session

/-- Reads a document anew. -/
def update (s : Session) (address source : String) : Except SessionError (Reply × Session) := do
  let document ← (Document.read address source).mapError .place
  .ok (.publish address document.notices, s.insert address document)

/-- Answers an event or a request. -/
def answer (s : Session) : Request → Except SessionError (Reply × Session)
  | .opened address source => s.update address source
  | .changed address changes => s.update address (lastText changes)
  | .closed address => .ok (.nothing, s.erase address)
  | .hover address line character => do
    let cursor ← (place line character).mapError .place
    match s.get? address with
    | none => .ok (.nothing, s)
    | some document => do
      let reply ← (document.hover cursor).mapError .fault
      .ok (reply, s)
  | .symbols address =>
    match s.get? address with
    | none => .ok (.symbols [], s)
    | some document => do
      let reply ← document.symbols.mapError .place
      .ok (reply, s)
  | .format address =>
    match s.get? address with
    | none => .ok (.nothing, s)
    | some document => do
      let reply ← document.format
      .ok (reply, s)

end Session

end TypeDesc.Editor
