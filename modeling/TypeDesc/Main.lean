/-
The program. It looks at the files that a command line may concern, runs the
command on them, and brings the changes to the disk.
-/
import TypeDesc.Command.Run

namespace TypeDesc.Disk

/-- The path of a location, as the system takes it. -/
def pathText (loc : Location) : String :=
  (Path.mk true loc).text

/-- What a file of the given name holds. Only what a command may read is looked at. -/
def contentOf (loc : Location) (wanted : Bool) : IO Content := do
  if wanted || FileTree.hasEnding Project.sourceEnding loc ||
      loc.getLast? == some Settings.fileName then
    let bytes ← IO.FS.readBinFile (pathText loc)
    match String.fromUTF8? bytes with
    | some text => return .text text
    | none => return .bytes bytes.toList
  else return .bytes []

/-- Adds what is at a location, and for a directory everything below. -/
partial def survey (t : FileTree) (loc : Location) (wanted : Bool) : IO FileTree := do
  let path := (← IO.currentDir) / pathText loc
  if !(← path.pathExists) then return t
  if ← path.isDir then
    let mut t := t.set loc .directory
    for entry in ← path.readDir do
      let kind := (← entry.path.symlinkMetadata).type
      if kind == .dir || !(← entry.path.isDir) then
        t ← survey t (loc ++ [entry.fileName]) false
    return t
  return t.set loc (.file (← contentOf loc wanted))

/-- Adds the directories above a location, and the settings files in them. -/
def surveyAbove (t : FileTree) (loc : Location) : IO FileTree := do
  let mut t := t
  for above in (Location.upward loc.dropLast.reverse).reverse do
    let path := (← IO.currentDir) / pathText above
    if ← path.isDir then
      t := t.set above .directory
      let file := above ++ [Settings.fileName]
      if ← (path / Settings.fileName).pathExists then
        t ← if ← (path / Settings.fileName).isDir then pure (t.set file .directory)
          else do pure (t.set file (.file (← contentOf file true)))
  return t

/-- The files that the items of a command line may concern: what they name, the current directory
if nothing else is named, and the project around each. -/
def surveyFor (here : Location) (items : List String) : IO FileTree := do
  let mut t : FileTree := {}
  let mut roots : List Location := []
  for item in items.drop 1 do
    let path := Path.ofText item
    let loc := Location.advance (if path.absolute then [] else here) path.names
    t ← surveyAbove t loc
    if ← ((← IO.currentDir) / pathText loc).pathExists then roots := roots ++ [loc]
  t ← surveyAbove t (here ++ [Settings.fileName])
  if roots.isEmpty then roots := [here]
  for root in roots do
    t ← survey t root true
    match t.nearest [] Settings.fileName ⟨true, root⟩ with
    | some dir => if items.head? == some "build" then t ← survey t dir false
    | none => pure ()
  return t

/-- Brings the changes between two trees to the disk. -/
def bring (old new : FileTree) : IO Unit := do
  for (loc, entry) in new.entries do
    if old.get? loc ≠ some entry then
      match entry with
      | .directory => IO.FS.createDir (pathText loc)
      | .file (.text text) => IO.FS.writeFile (pathText loc) text
      | .file (.bytes _) => pure ()

end TypeDesc.Disk

open TypeDesc in
/-- Runs the command line. -/
def main (items : List String) : IO UInt32 := do
  let here := (Path.ofText (toString (← IO.currentDir))).names
  let files ← Disk.surveyFor here items
  let input ← if items.contains "--stdin" then (← IO.getStdin).readToEnd else pure ""
  let around : Surroundings := { here, input, terminal := ← (← IO.getStdout).isTty }
  let outcome := runLine around items files
  Disk.bring files outcome.files
  IO.print outcome.out
  IO.eprint outcome.err
  if outcome.code == 2 then IO.eprintln ""
  if let some failure := outcome.failure then IO.eprintln ("error: " ++ failure.message)
  return outcome.code.toUInt32
