/-
Why work on a project ends before its time. Mistakes in descriptions are no
failures: they are reported, and the work goes on.
-/
import TypeDesc.Description.Emission
import TypeDesc.Description.Printer
import TypeDesc.FileTree.Search
import TypeDesc.Settings

namespace TypeDesc

/-- Why work on a project ends before its time. -/
inductive Failure
  | file (error : FileError)
  | settings (error : SettingsError)
  | misfit (misfit : Misfit)
  | fault (fault : Fault)
  /-- A description without any token, not even its end. -/
  | noTokens
deriving Repr

namespace Misfit

/-- The setting that has the wrong kind of value, and the value. -/
def message : Misfit → String
  | .name _ => "name cannot be shown"
  | .topName value => "top_name cannot be " ++ value.shown
  | .lineWidth value => "line_width cannot be " ++ value.shown
  | .outDir value => "out_dir cannot be " ++ value.shown

end Misfit

namespace Failure

/-- The wording of a failure. -/
def message : Failure → String
  | .file error => error.message
  | .settings (.unreadable defect) => "the settings cannot be read: " ++ defect.message
  | .settings (.notTable name) => "the settings " ++ Text.quoted name ++ " are not a table"
  | .misfit m => m.message
  | .fault f => f.message
  | .noTokens => "the description has no tokens"

end Failure

/-- Why a source of a project gives no text. -/
inductive SourceError
  | rejected (reports : List Report)
  | failed (failure : Failure)
deriving Repr

namespace SourceError

/-- An error of reading a description. -/
def ofRead : ReadError → SourceError
  | .rejected reports => .rejected reports
  | .noTokens => .failed .noTokens

/-- An error of emitting a description. -/
def ofEmit : EmitError → SourceError
  | .rejected report => .rejected [report]
  | .fault f => .failed (.fault f)

/-- A setting that cannot be used. -/
def ofMisfit (m : Misfit) : SourceError :=
  .failed (.misfit m)

/-- A fault. -/
def ofFault (f : Fault) : SourceError :=
  .failed (.fault f)

end SourceError

namespace OutputSettings

/-- The text of the Reason module of a source under the settings of its project, and the warnings
about the source. -/
def compile (s : OutputSettings) (file source : String) :
    Except SourceError (String × List Report) := do
  let (d, warnings) ← (Description.ofSource file source).mapError .ofRead
  let top ← s.top?.mapError .ofMisfit
  let decls ← (d.reasonModule top).mapError .ofEmit
  let width ← (s.width (decls.any (·.usesWidth))).mapError .ofMisfit
  let text ← (Reason.printModule width decls).mapError .ofFault
  .ok (text, warnings)

/-- The canonical text of a source under the settings of its project. -/
def canonical (s : OutputSettings) (file source : String) : Except SourceError String := do
  let (d, _) ← (Description.ofSource file source).mapError .ofRead
  let width ← (s.width d.body.usesWidth).mapError .ofMisfit
  (d.print width).mapError .ofFault

end OutputSettings

namespace Settings

/-- The name of the settings file of a project. -/
def fileName : String := "typegen.toml"

/-- The settings in a file. -/
def load (t : FileTree) (dir : Location) : Except Failure Settings := do
  let text ← (t.readStored [] ⟨true, dir ++ [fileName]⟩).mapError .file
  (ofText text).mapError .settings

/-- The settings that govern a path: those of the nearest directory that has any. -/
def governing (t : FileTree) (here : Location) (p : Path) : Except Failure Settings :=
  match t.nearest here fileName p with
  | some dir => load t dir
  | none => .ok {}

end Settings

end TypeDesc
