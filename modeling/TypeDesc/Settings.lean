/-
The settings of a project, as its settings file gives them. A setting keeps
whatever value the file has for it; what a value of another kind than expected
means is decided where the setting is used.
-/
import TypeDesc.Toml.Reader

namespace TypeDesc

/-- What a project is called. -/
structure PackageSettings where
  name : Toml.Value := .text "untitled"
  version : Toml.Value := .text "0.0.0"
deriving Repr

/-- What is emitted, and where to. -/
structure OutputSettings where
  topName : Toml.Value := .text "t"
  emitTop : Toml.Value := .boolean true
  lineWidth : Toml.Value := .integer 80
  outDir : Toml.Value := .text "build"
deriving Repr

/-- How messages look. -/
structure StyleSettings where
  color : Toml.Value := .boolean true
deriving Repr

/-- The settings of a project. -/
structure Settings where
  package : PackageSettings := {}
  output : OutputSettings := {}
  style : StyleSettings := {}
deriving Repr

/-- Why a settings file gives no settings. -/
inductive SettingsError
  /-- It is no TOML document. -/
  | unreadable (defect : Toml.Defect)
  /-- A section of settings is no table. -/
  | notTable (name : String)
deriving DecidableEq, Repr

/-- A setting whose value is of a kind that cannot be used for it. -/
inductive Misfit
  | name (value : Toml.Value)
  | topName (value : Toml.Value)
  | lineWidth (value : Toml.Value)
  | outDir (value : Toml.Value)
deriving Repr

namespace Settings

/-- The entries of the section `name`; a section that is not there has none. -/
def sectionEntries (entries : List (String × Toml.Value)) (name : String) :
    Except SettingsError (List (String × Toml.Value)) :=
  match entries.lookup name with
  | none => .ok []
  | some (.table inner) => .ok inner
  | some _ => .error (.notTable name)

/-- The settings that the entries of a settings file give. -/
def ofEntries (entries : List (String × Toml.Value)) : Except SettingsError Settings := do
  let package ← sectionEntries entries "package"
  let output ← sectionEntries entries "output"
  let style ← sectionEntries entries "style"
  .ok {
    package := {
      name := (package.lookup "name").getD (.text "untitled")
      version := (package.lookup "version").getD (.text "0.0.0") }
    output := {
      topName := (output.lookup "top_name").getD (.text "t")
      emitTop := (output.lookup "emit_top").getD (.boolean true)
      lineWidth := (output.lookup "line_width").getD (.integer 80)
      outDir := (output.lookup "out_dir").getD (.text "build") }
    style := { color := (style.lookup "color").getD (.boolean true) } }

/-- The settings that the text of a settings file gives. -/
def ofText (text : String) : Except SettingsError Settings := do
  let entries ← (Toml.read text).mapError .unreadable
  ofEntries entries

end Settings

/-- What a project is called, as it is shown. -/
def PackageSettings.shownName (s : PackageSettings) : Except Misfit String :=
  if s.name.isShowable then .ok s.name.message else .error (.name s.name)

namespace OutputSettings

/-- The name of the top, if one is wanted. -/
def top? (s : OutputSettings) : Except Misfit (Option String) :=
  if s.emitTop.isYes then
    match s.topName.text? with
    | some name => .ok (some name)
    | none => .error (.topName s.topName)
  else .ok none

/-- The room on a line for texts that are at most as long as a number says. Only its whole part
matters, since lengths are whole; what is no number leaves room for nothing. -/
def roomIn : Double → Text.Width
  | .finite negative mantissa exponent => .columns (Double.floorOf negative mantissa exponent)
  | .infinite false => .unbounded
  | .infinite true => .columns (-1)
  | .undefined => .columns (-1)

/-- The room on a line that a value stands for; yes and no stand for one and zero. -/
def room? : Toml.Value → Option Text.Width
  | .integer value => some (.columns value)
  | .boolean value => some (.columns (if value then 1 else 0))
  | .real value => some (roomIn value)
  | _ => none

/-- The width of lines. It must be a number only if something is `laidOut`. -/
def width (s : OutputSettings) (laidOut : Bool) : Except Misfit Text.Width :=
  match room? s.lineWidth with
  | some width => .ok width
  | none => if laidOut then .error (.lineWidth s.lineWidth) else .ok (.columns 80)

/-- The directory of the output. -/
def directory (s : OutputSettings) : Except Misfit String :=
  match s.outDir.text? with
  | some text => .ok text
  | none => .error (.outDir s.outDir)

end OutputSettings

end TypeDesc
