/-
The commands of the program, and the command lines that ask for them.
-/
import TypeDesc.Command.Arguments
import TypeDesc.FileTree.Basic

namespace TypeDesc

/-- What is asked of the generation of one module, besides the settings. -/
structure GenOptions where
  output : Option String := none
  topName : Option String := none
  noTop : Bool := false
  width : Option Int := none
  color : Option Bool := none
deriving DecidableEq, Repr

/-- A command. -/
inductive Command
  /-- Emit the Reason module of one description. -/
  | gen (file : String) (options : GenOptions)
  /-- Look for mistakes in descriptions. -/
  | check (path : String)
  /-- Build a project. -/
  | build (path : String)
  /-- Start a project. -/
  | new (name : String)
  /-- Bring descriptions into their canonical form, or only tell which are not. -/
  | format (path : String) (checkOnly fromInput : Bool)
  /-- Show the outline of a description. -/
  | view (file : String)
  /-- Serve an editor. -/
  | serve
  | version
  | help
deriving DecidableEq, Repr

namespace Command

/-- Why a command line gives no command. -/
inductive LineError
  | usage (usage : Usage)
  /-- A value where a path is expected cannot be one. -/
  | file (error : FileError)
deriving DecidableEq, Repr

/-- What is at a path, as it is typed. -/
abbrev Look := String → Except FileError Entry

/-- What is at a path, if anything is that can be reached. -/
def entry? (look : Look) (text : String) : Except LineError (Option Entry) :=
  match look text with
  | .ok e => .ok (some e)
  | .error .badName => .error (.file .badName)
  | .error _ => .ok none

/-- The names of the commands. -/
def names : List String :=
  ["build", "check", "format", "gen", "lsp", "new", "view"]

/-- The option that asks for help. -/
def helpForm : OptionForm := { name := "--help" }

/-- The options before a command. -/
def mainForms : List OptionForm :=
  [{ name := "--version" }, helpForm]

/-- The options of generation. -/
def genForms : List OptionForm :=
  [{ name := "--output", letter := some 'o', takesValue := true },
    { name := "--top-name", takesValue := true }, { name := "--no-top" },
    { name := "--width", takesValue := true }, { name := "--color" }, { name := "--no-color" },
    helpForm]

/-- The options of formatting. -/
def formatForms : List OptionForm :=
  [{ name := "--check" }, { name := "--stdin" }, helpForm]

/-- Refuses a value for a parameter. -/
def refuse (parameter : String) (reason : BadValue) : Except LineError Unit :=
  .error (.usage (.invalid parameter reason))

/-- Checks that a value is an integer. -/
def checkInteger (parameter text : String) : Except LineError Unit :=
  if (integer? text).isSome then .ok () else refuse parameter (.notInteger text)

/-- Checks that a value can be the path of a file to be written. -/
def checkOutput (look : Look) (parameter text : String) : Except LineError Unit := do
  match ← entry? look text with
  | some .directory => refuse parameter (.isDirectory text)
  | _ => .ok ()

/-- Checks that a value is the path of a file. -/
def checkFile (look : Look) (text : String) : Except LineError Unit := do
  match ← entry? look text with
  | none => refuse "'FILE'" (.missingFile text)
  | some .directory => refuse "'FILE'" (.isDirectory text)
  | some (.file _) => .ok ()

/-- Checks that a value is the path of a file or a directory. -/
def checkPath (look : Look) (text : String) : Except LineError Unit := do
  match ← entry? look text with
  | none => refuse "'[PATH]'" (.missingPath text)
  | some _ => .ok ()

/-- Checks the value of an option of generation. -/
def checkGenOption (look : Look) (name value : String) : Except LineError Unit :=
  if name = "--width" then checkInteger "'--width'" value
  else if name = "--output" then checkOutput look "'-o' / '--output'" value
  else .ok ()

/-- The only argument of a command, which must be given. -/
def required (name : String) : List String → Except LineError String
  | [] => .error (.usage (.missingArgument name))
  | value :: _ => .ok value

/-- Checks that nothing follows the only argument of a command. -/
def checkRest : List String → Except LineError Unit
  | [] => .ok ()
  | [_] => .ok ()
  | _ :: rest => .error (.usage (.unexpected rest))

/-- The options and arguments of a command line. -/
def scan (forms : List OptionForm) (among : Bool) (items : List String) :
    Except LineError Arguments :=
  (Arguments.scan forms among items).mapError .usage

/-- The color that is asked for; the last word counts. -/
def colorChoice (a : Arguments) : Option Bool :=
  (a.options.filterMap fun (name, _) =>
    if name = "--color" then some true
    else if name = "--no-color" then some false
    else none).getLast?

/-- The command `gen`. -/
def readGen (look : Look) (items : List String) : Except LineError Command := do
  let a ← scan genForms true items
  if a.has "--help" then return .help
  a.checkOptions (checkGenOption look) a.options
  let file ← required "FILE" a.values
  checkFile look file
  checkRest a.values
  return .gen file {
    output := a.value? "--output"
    topName := a.value? "--top-name"
    noTop := a.has "--no-top"
    width := (a.value? "--width").bind integer?
    color := colorChoice a }

/-- A command with the path of a file as its only argument. -/
def readOnFile (look : Look) (command : String → Command) (items : List String) :
    Except LineError Command := do
  let a ← scan [helpForm] true items
  if a.has "--help" then return .help
  let file ← required "FILE" a.values
  checkFile look file
  checkRest a.values
  return command file

/-- A command with a path as its only argument, by default the current directory. -/
def readOnPath (look : Look) (forms : List OptionForm) (command : Arguments → String → Command)
    (items : List String) : Except LineError Command := do
  let a ← scan forms true items
  if a.has "--help" then return .help
  let path := a.values.head?.getD "."
  checkPath look path
  checkRest a.values
  return command a path

/-- The command `new`. -/
def readNew (items : List String) : Except LineError Command := do
  let a ← scan [helpForm] true items
  if a.has "--help" then return .help
  let name ← required "NAME" a.values
  checkRest a.values
  return .new name

/-- The command `lsp`. -/
def readServe (items : List String) : Except LineError Command := do
  let a ← scan [helpForm] true items
  if a.has "--help" then return .help
  if a.values.isEmpty then return .serve
  throw (.usage (.unexpected a.values))

/-- What the options before a command ask for. Of version and help, the one that is given first
counts. -/
def ofMainOptions? (a : Arguments) : Option Command :=
  a.options.head?.map fun (name, _) => if name = "--version" then .version else .help

/-- What is asked for by a name that no command has. If it looks like an option, which it may
behind two hyphens alone, it is taken for one. -/
def readUnknown (name : String) (items : List String) : Except LineError Command := do
  let a ← scan mainForms false (name :: items)
  match ofMainOptions? a with
  | some command => return command
  | none => throw (.usage (.unknownCommand name (Text.closest Arguments.maxOffers name names)))

/-- The command that a name and the items behind it ask for. -/
def readNamed (look : Look) (name : String) (items : List String) : Except LineError Command :=
  if name = "gen" then readGen look items
  else if name = "check" then readOnPath look [helpForm] (fun _ => .check) items
  else if name = "build" then readOnPath look [helpForm] (fun _ => .build) items
  else if name = "new" then readNew items
  else if name = "format" then
    readOnPath look formatForms (fun a path => .format path (a.has "--check") (a.has "--stdin"))
      items
  else if name = "view" then readOnFile look .view items
  else if name = "lsp" then readServe items
  else readUnknown name items

/-- The command that a command line asks for. -/
def ofLine (look : Look) (items : List String) : Except LineError Command := do
  if items.isEmpty then return .help
  let a ← scan mainForms false items
  match ofMainOptions? a with
  | some command => return command
  | none =>
    match a.values with
    | [] => throw (.usage .missingCommand)
    | name :: items => readNamed look name items

end Command

end TypeDesc
