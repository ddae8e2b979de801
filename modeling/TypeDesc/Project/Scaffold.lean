/-
Starting a project: a directory with a settings file, a first description, and
the usual files beside them.
-/
import TypeDesc.Project.Build

namespace TypeDesc

/-- Why a project is not started. -/
inductive ScaffoldError
  /-- There is an entry of that name. -/
  | taken (name : String)
  /-- Something is in the way of a file or directory. -/
  | blocked (error : FileError) (path : Path)
deriving DecidableEq, Repr

namespace Project

/-- The settings file of a new project. -/
def newSettings (name : String) : String :=
  "[package]\nname = \"" ++ name ++ "\"\nversion = \"0.1.0\"\n\n" ++
  "[output]\ntop_name = \"t\"\nemit_top = true\nline_width = 80\nout_dir = \"build\"\n\n" ++
  "[style]\ncolor = true\n"

/-- The description of a new project. -/
def newDescription : String :=
  "// A list of elements of type a.\nparams a\nrec list \x7b Nil, Cons: a * list \x7d\n"

/-- The names that version control leaves out of a new project. -/
def newIgnored : String :=
  "build/\n__pycache__/\n"

/-- The text that tells about a new project. -/
def newReadme (name : String) : String :=
  "# " ++ name ++ "\n\nType descriptions compiled to ReasonML by typegen.\n\n" ++
  "## Build\n\n```bash\ntypegen build\n```\n"

/-- The files of a new project. -/
def newFiles (dir : Path) (name : String) : List (Path × String) :=
  [(dir.child Settings.fileName, newSettings name),
    ((dir.child "src").child "main.tyd", newDescription),
    (dir.child ".gitignore", newIgnored),
    (dir.child "README.md", newReadme name)]

/-- Writes files one after the other, up to the first that cannot be written. -/
def writeFiles (t : FileTree) : List (Path × String) → FileTree × Except ScaffoldError Unit
  | [] => (t, .ok ())
  | (place, text) :: files =>
    match t.write [] place text with
    | .ok written => writeFiles written files
    | .error e => (t, .error (.blocked e place))

/-- Starts a project with the given name in a directory, and gives its place. -/
def scaffold (t : FileTree) (here : Location) (name : String) :
    FileTree × Except ScaffoldError Path :=
  let dir := (Path.mk true here).join (.ofText name)
  match t.lookup [] dir with
  | .ok _ => (t, .error (.taken name))
  | .error .nameTooLong => (t, .error (.blocked .nameTooLong dir))
  | .error _ =>
    match t.makeDirectories [] false (dir.child "src") with
    | (made, .error (e, path)) => (made, .error (.blocked e path))
    | (made, .ok ()) =>
      match writeFiles made (newFiles dir name) with
      | (t', .error e) => (t', .error e)
      | (t', .ok ()) => (t', .ok dir)

end Project

end TypeDesc
