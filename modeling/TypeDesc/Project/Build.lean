/-
Building a project: every description in it is compiled, and only when none has
an error are the texts written, each in its place under the directory of the
output.
-/
import TypeDesc.Project.Failure

namespace TypeDesc

/-- A project: where it is, and its settings. -/
structure Project where
  dir : Location
  settings : Settings

/-- How a build ended. -/
inductive BuildResult
  | noSources
  | rejected (reports : List Report)
  | built (outputs : List Path) (reports : List Report)

/-- The texts of a build and where they go, and what was reported on the way. -/
structure Compiled where
  reports : List Report := []
  texts : List (Path × String) := []

namespace Project

/-- The ending of the names of descriptions. -/
def sourceEnding : String := ".tyd"

/-- The ending of the names of Reason modules. -/
def outputEnding : String := ".re"

/-- The directory with the descriptions of a project directory: its directory `src`, if there is
one. -/
def sourceDir (t : FileTree) (here : Location) (dir : Path) : Path :=
  if t.isDirectory here (dir.child "src") then dir.child "src" else dir

/-- The descriptions of a project directory, in order. -/
def sources (t : FileTree) (here : Location) (dir : Path) : List Path :=
  t.search here sourceEnding (sourceDir t here dir)

/-- Where the text of a description goes: to the same place in the directory of the output. -/
def target (dir out sourceDir source : Path) : Path :=
  let names := source.names.drop sourceDir.names.length
  ((dir.join out).join ⟨false, names⟩).replaceEnding outputEnding

/-- Compiles descriptions. The first one that cannot be read ends the work. -/
def compileAll (t : FileTree) (settings : OutputSettings) (dir sourceDir : Path) :
    List Path → Except Failure Compiled
  | [] => .ok {}
  | source :: sources => do
    let content ← (t.read [] source).mapError .file
    match settings.compile source.text content with
    | .error (.failed failure) => .error failure
    | .error (.rejected reports) => do
      let rest ← compileAll t settings dir sourceDir sources
      .ok { rest with reports := reports ++ rest.reports }
    | .ok (text, warnings) => do
      let out ← settings.directory.mapError .misfit
      let rest ← compileAll t settings dir sourceDir sources
      let place := target dir (.ofText out) sourceDir source
      .ok ⟨warnings ++ rest.reports, (place, text) :: rest.texts⟩

/-- Writes a text, after making the directories that it needs. -/
def writeOne (t : FileTree) (place : Path) (text : String) : FileTree × Except FileError Unit :=
  match t.makeDirectories [] true place.parent with
  | (made, .error (e, _)) => (made, .error e)
  | (made, .ok ()) =>
    match made.write [] place text with
    | .error e => (made, .error e)
    | .ok written => (written, .ok ())

/-- Writes texts one after the other, up to the first that cannot be written. -/
def writeAll (t : FileTree) : List (Path × String) → FileTree × Except FileError Unit
  | [] => (t, .ok ())
  | (place, text) :: texts =>
    match writeOne t place text with
    | (t', .ok ()) => writeAll t' texts
    | stopped => stopped

/-- The descriptions of a project. -/
def found (p : Project) (t : FileTree) : List Path :=
  sources t [] ⟨true, p.dir⟩

/-- What compiling the sources of a project gives. -/
def compiled? (p : Project) (t : FileTree) : Except Failure Compiled :=
  compileAll t p.settings.output ⟨true, p.dir⟩ (sourceDir t [] ⟨true, p.dir⟩) (p.found t)

/-- What a build does with what compiling gave: texts are written only when no report is an error. -/
def finish (t : FileTree) : Except Failure Compiled → FileTree × Except Failure BuildResult
  | .error failure => (t, .error failure)
  | .ok compiled =>
    if compiled.reports.any (·.isError) then (t, .ok (.rejected compiled.reports))
    else
      match writeAll t compiled.texts with
      | (t', .error e) => (t', .error (.file e))
      | (t', .ok ()) => (t', .ok (.built (compiled.texts.map (·.1)) compiled.reports))

/-- Builds a project. -/
def build (p : Project) (t : FileTree) : FileTree × Except Failure BuildResult :=
  match p.found t with
  | [] => (t, .ok .noSources)
  | _ :: _ => finish t (p.compiled? t)

end Project

end TypeDesc
