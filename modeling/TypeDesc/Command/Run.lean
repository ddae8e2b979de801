/-
Running commands. A command sees the files, the current directory, its input and
whether it writes to a terminal; it changes files, writes output and messages,
and ends with an exit code. Without a terminal, escape sequences are left out of
what is written.
-/
import TypeDesc.Coloring.Reason
import TypeDesc.Command.Basic
import TypeDesc.Description.Outline
import TypeDesc.Diagnostic.Excerpt
import TypeDesc.Project.Scaffold
import TypeDesc.Text.Escape

namespace TypeDesc

/-- What a command finds around itself. -/
structure Surroundings where
  /-- The location of the current directory. -/
  here : Location := []
  input : String := ""
  /-- Whether output and messages go to a terminal. -/
  terminal : Bool := false

/-- What a command works on: the files, and what it has written so far. -/
structure Desk where
  files : FileTree
  out : String := ""
  err : String := ""

/-- How a command ends before its last step. -/
inductive Ending
  | exit (code : Nat)
  | failed (failure : Failure)

/-- A piece of the work of a command. Its changes stay when it ends early. -/
abbrev Work := ExceptT Ending (StateM Desk)

namespace Work

/-! ## Steps -/

/-- Goes on with a value, or ends the command. -/
def attempt {α : Type} : Except Failure α → Work α
  | .ok a => pure a
  | .error failure => throw (.failed failure)

/-- A text as it is written: escape sequences are for terminals. -/
def shown (around : Surroundings) (text : String) : String :=
  if around.terminal then text else Text.stripEscapes text

/-- Writes a text to the output as it stands. -/
def putRaw (text : String) : Work Unit :=
  modify fun desk => { desk with out := desk.out ++ text }

/-- Writes a text to the output. -/
def put (around : Surroundings) (text : String) : Work Unit :=
  putRaw (shown around text)

/-- Writes a line to the output. -/
def say (around : Surroundings) (line : String) : Work Unit :=
  put around (line ++ "\n")

/-- Writes a line to the messages. -/
def complain (around : Surroundings) (line : String) : Work Unit :=
  modify fun desk => { desk with err := desk.err ++ shown around (line ++ "\n") }

/-- Changes the files, or ends the command. -/
def change (f : FileTree → Except FileError FileTree) : Work Unit := do
  match f (← get).files with
  | .ok files => modify fun desk => { desk with files }
  | .error e => throw (.failed (.file e))

/-- The text of a file. -/
def readFile (around : Surroundings) (p : Path) : Work String := do
  attempt (((← get).files.read around.here p).mapError .file)

/-- The settings that govern a path. -/
def settingsFor (around : Surroundings) (p : Path) : Work Settings := do
  attempt (Settings.governing (← get).files around.here p)

/-! ## Reports -/

/-- Ends the command if a file is there but is no text. -/
def demandText (around : Surroundings) (p : Path) : Work Unit := do
  match (← get).files.read around.here p with
  | .error .notText => throw (.failed (.file .notText))
  | _ => pure ()

/-- The lines of the files, which diagnostics show parts of. A file that cannot be read has none. That
it is no text is found before: a command has read the files that it reports on, or demands a text
(`demandText`). -/
def linesOnDisk (around : Surroundings) (t : FileTree) : Sources := fun file =>
  match t.read around.here (.ofText file) with
  | .ok text => Text.lines text
  | .error _ => []

/-- Tells reports. -/
def tell (around : Surroundings) (sources : Sources) (color : Bool) : List Report → Work Unit
  | [] => pure ()
  | report :: reports => do
    complain around (report.diagnostic.render sources color)
    tell around sources color reports

/-- Tells reports about files. -/
def tellOnDisk (around : Surroundings) (color : Bool) (reports : List Report) : Work Unit := do
  tell around (linesOnDisk around (← get).files) color reports

/-! ## The commands -/

/-- The settings with what the command line says instead. -/
def override (s : OutputSettings) (options : GenOptions) : OutputSettings where
  topName := (options.topName.map .text).getD s.topName
  emitTop := if options.noTop then .boolean false else s.emitTop
  lineWidth := (options.width.map .integer).getD s.lineWidth
  outDir := s.outDir

/-- Emits the Reason module of one description. -/
def gen (around : Surroundings) (file : String) (options : GenOptions) : Work Unit := do
  let path := Path.ofText file
  let settings ← settingsFor around path
  let color := options.color.getD settings.style.color.isYes
  let source ← readFile around path
  let sources : Sources := fun name => if name = file then Text.lines source else []
  match (override settings.output options).compile file source with
  | .error (.failed failure) => throw (.failed failure)
  | .error (.rejected reports) =>
    tell around sources color reports
    throw (.exit 1)
  | .ok (text, warnings) =>
    tell around sources color warnings
    match options.output with
    | some output =>
      if output = "" then emit color text
      else
        change fun t => t.write around.here (.ofText output) text
        say around ("wrote " ++ output)
    | none => emit color text
where
  emit (color : Bool) (text : String) : Work Unit :=
    put around (if color && around.terminal then Coloring.reasonText text else text)

/-- Looks for mistakes in files, and tells whether there are none. -/
def checkFiles (around : Surroundings) (color : Bool) : List Path → Work Bool
  | [] => pure true
  | path :: paths => do
    let source ← readFile around path
    match Description.ofSource path.text source with
    | .error .noTokens => throw (.failed .noTokens)
    | .error (.rejected reports) =>
      tellOnDisk around color reports
      let _ ← checkFiles around color paths
      pure false
    | .ok (_, warnings) =>
      tellOnDisk around color warnings
      checkFiles around color paths

/-- Looks for mistakes in descriptions. -/
def check (around : Surroundings) (path : Path) : Work Unit := do
  let files := (← get).files
  let found :=
    if files.isDirectory around.here path then Project.sources files around.here path else [path]
  if found.isEmpty then complain around "warning: no .tyd files found"
  else
    let settings ← settingsFor around path
    if ← checkFiles around settings.style.color.isYes found then
      say around ("checked " ++ toString found.length ++ " file(s) — no errors")
    else throw (.exit 1)

/-- Tells which files a build has written. -/
def sayWritten (around : Surroundings) : List Path → Work Unit
  | [] => pure ()
  | path :: paths => do
    say around ("  wrote " ++ path.text)
    sayWritten around paths

/-- Builds the project that a path belongs to. -/
def build (around : Surroundings) (path : Path) : Work Unit := do
  match (← get).files.nearest around.here Settings.fileName path with
  | none =>
    complain around ("error: no " ++ Settings.fileName ++ " found")
    throw (.exit 1)
  | some dir =>
    let settings ← attempt (Settings.load (← get).files dir)
    let name ← attempt (settings.package.shownName.mapError .misfit)
    say around ("building " ++ name ++ "...")
    let (files, result) := Project.build ⟨dir, settings⟩ (← get).files
    modify fun desk => { desk with files }
    match ← attempt result with
    | .noSources =>
      complain around "error: no .tyd files found"
      throw (.exit 1)
    | .rejected reports =>
      tellOnDisk around settings.style.color.isYes reports
      throw (.exit 1)
    | .built outputs reports =>
      tellOnDisk around settings.style.color.isYes reports
      sayWritten around outputs
      say around ("built " ++ name ++ " — " ++ toString outputs.length ++ " file(s)")

/-- Starts a project. -/
def new (around : Surroundings) (name : String) : Work Unit := do
  let (files, result) := Project.scaffold (← get).files around.here name
  modify fun desk => { desk with files }
  match result with
  | .ok dir => say around ("created project '" ++ name ++ "' at " ++ dir.text)
  | .error (.taken name) =>
    complain around ("error: Directory '" ++ name ++ "' already exists")
    throw (.exit 1)
  | .error (.blocked .alreadyExists path) =>
    complain around ("error: [Errno 17] File exists: " ++ Text.quoted path.text)
    throw (.exit 1)
  | .error (.blocked e _) => throw (.failed (.file e))

/-- Formats the input. Reports show parts of the file that has the name given to the input, should
there be one. -/
def formatInput (around : Surroundings) (settings : Settings) (checkOnly : Bool) : Work Unit := do
  let source := Text.unified around.input
  match settings.output.canonical "<stdin>" source with
  | .error (.failed failure) => throw (.failed failure)
  | .error (.rejected reports) =>
    demandText around (.ofText "<stdin>")
    tellOnDisk around settings.style.color.isYes reports
    throw (.exit 1)
  | .ok text =>
    if checkOnly then
      if text ≠ source then throw (.exit 1)
    else putRaw text

/-- Formats files, or only tells which are not formatted, and tells whether there are any such. -/
def formatFiles (around : Surroundings) (settings : Settings) (checkOnly : Bool) :
    List Path → Work Bool
  | [] => pure false
  | path :: paths => do
    let source ← readFile around path
    match settings.output.canonical path.text source with
    | .error (.failed failure) => throw (.failed failure)
    | .error (.rejected reports) =>
      tellOnDisk around settings.style.color.isYes reports
      formatFiles around settings checkOnly paths
    | .ok text =>
      if text = source then formatFiles around settings checkOnly paths
      else if checkOnly then
        say around ("would reformat " ++ path.text)
        let _ ← formatFiles around settings checkOnly paths
        pure true
      else
        change fun t => t.write around.here path text
        say around ("formatted " ++ path.text)
        formatFiles around settings checkOnly paths

/-- Brings descriptions into their canonical form, or only tells which are not. -/
def format (around : Surroundings) (path : Path) (checkOnly fromInput : Bool) : Work Unit := do
  let settings ← settingsFor around path
  if fromInput then formatInput around settings checkOnly
  else
    let files := (← get).files
    let found :=
      if files.isDirectory around.here path then
        files.search around.here Project.sourceEnding path
      else [path]
    if found.isEmpty then complain around "no .tyd files found"
    else if ← formatFiles around settings checkOnly found then throw (.exit 1)

/-- Writes lines to the output. -/
def sayAll (around : Surroundings) : List String → Work Unit
  | [] => pure ()
  | line :: lines => do
    say around line
    sayAll around lines

/-- Shows the outline of a description. -/
def view (around : Surroundings) (file : String) : Work Unit := do
  let path := Path.ofText file
  let source ← readFile around path
  match Description.ofSource file source with
  | .error .noTokens => throw (.failed .noTokens)
  | .error (.rejected reports) =>
    let settings ← settingsFor around path
    tellOnDisk around settings.style.color.isYes reports
    throw (.exit 1)
  | .ok (d, _) => sayAll around d.outline

/-- The text that says how the program is used. -/
def helpText : String :=
  "Usage: typegen [OPTIONS] COMMAND [ARGS]...\n\n" ++
    "Commands: build, check, format, gen, lsp, new, view"

/-- Runs a command. Serving an editor ends at once: its requests come from elsewhere. -/
def perform (around : Surroundings) : Command → Work Unit
  | .gen file options => gen around file options
  | .check path => check around (.ofText path)
  | .build path => build around (.ofText path)
  | .new name => new around name
  | .format path checkOnly fromInput => format around (.ofText path) checkOnly fromInput
  | .view file => view around file
  | .serve => pure ()
  | .version => say around "typegen, version 0.1.0"
  | .help => say around helpText

end Work

/-- What a command line leaves behind. -/
structure Outcome where
  code : Nat
  out : String := ""
  err : String := ""
  /-- The failure that ended the command, if one did. -/
  failure : Option Failure := none
  files : FileTree

/-- Runs a command line. -/
def runLine (around : Surroundings) (items : List String) (files : FileTree) : Outcome :=
  match Command.ofLine (files.lookupText around.here) items with
  | .error (.usage usage) =>
    { code := 2, err := Work.shown around ("Error: " ++ usage.message), files }
  | .error (.file e) => { code := 1, failure := some (.file e), files }
  | .ok command =>
    match (Work.perform around command).run { files } with
    | (.ok (), desk) => { code := 0, out := desk.out, err := desk.err, files := desk.files }
    | (.error (.exit code), desk) => { code, out := desk.out, err := desk.err, files := desk.files }
    | (.error (.failed failure), desk) =>
      { code := 1, out := desk.out, err := desk.err, failure := some failure, files := desk.files }

end TypeDesc
