/-
A tree of files and directories. Every entry is known by its location, the names
that lead to it from the top; the top itself is always a directory. Operations
take the location of the current directory and a path, follow the path entry by
entry, and say what is in the way when they cannot. Permissions and links are
left out: nothing is forbidden, and an entry is only found at its own location.
-/
import TypeDesc.FileTree.Path

namespace TypeDesc

/-- The names that lead to an entry from the top. -/
abbrev Location := List String

/-- What a file holds. -/
inductive Content
  | text (value : String)
  /-- Bytes that are no text. -/
  | bytes (values : List UInt8)
deriving DecidableEq, Repr

/-- An entry of a file tree. -/
inductive Entry
  | file (content : Content)
  | directory
deriving DecidableEq, Repr

/-- A tree of files and directories. -/
structure FileTree where
  entries : List (Location × Entry) := []
deriving DecidableEq, Repr

/-- What stands in the way of an operation on files. -/
inductive FileError
  | notFound
  | notDirectory
  | isDirectory
  | alreadyExists
  | notText
  | nameTooLong
  /-- A name holds the character that ends names. -/
  | badName
deriving DecidableEq, Repr

/-- The wording of what stands in the way. -/
def FileError.message : FileError → String
  | .notFound => "no such file or directory"
  | .notDirectory => "not a directory"
  | .isDirectory => "is a directory"
  | .alreadyExists => "file exists"
  | .notText => "the file is not text"
  | .nameTooLong => "file name too long"
  | .badName => "not a file name"

namespace FileTree

/-! ## Entries -/

/-- What is at a location. -/
def get? (t : FileTree) (loc : Location) : Option Entry :=
  if loc = [] then some .directory else t.entries.lookup loc

/-- The entries with `e` at a location. -/
def setIn (loc : Location) (e : Entry) : List (Location × Entry) → List (Location × Entry)
  | [] => [(loc, e)]
  | (l, old) :: entries =>
    if l = loc then (l, e) :: entries else (l, old) :: setIn loc e entries

/-- The tree with `e` at a location. -/
def set (t : FileTree) (loc : Location) (e : Entry) : FileTree :=
  ⟨setIn loc e t.entries⟩

theorem lookup_setIn_self (loc : Location) (e : Entry) (entries : List (Location × Entry)) :
    (setIn loc e entries).lookup loc = some e := by
  induction entries with
  | nil => simp [setIn]
  | cons entry entries ih =>
    obtain ⟨l, old⟩ := entry
    by_cases h : l = loc
    · simp [setIn, h]
    · have h' : (loc == l) = false := by simp [Ne.symm h]
      simp [setIn, h, List.lookup_cons, h', ih]

theorem lookup_setIn_other {loc l : Location} (h : l ≠ loc) (e : Entry)
    (entries : List (Location × Entry)) : (setIn loc e entries).lookup l = entries.lookup l := by
  induction entries with
  | nil => simp [setIn, h]
  | cons entry entries ih =>
    obtain ⟨k, old⟩ := entry
    by_cases hk : k = loc
    · have h' : (l == k) = false := by simp [hk, h]
      simp [setIn, hk, List.lookup_cons, hk ▸ h']
    · simp [setIn, hk, List.lookup_cons, ih]

theorem get?_set_self (t : FileTree) {loc : Location} (h : loc ≠ []) (e : Entry) :
    (t.set loc e).get? loc = some e := by
  simp [get?, set, h, lookup_setIn_self]

theorem get?_set_other (t : FileTree) {loc l : Location} (h : l ≠ loc) (e : Entry) :
    (t.set loc e).get? l = t.get? l := by
  simp [get?, set, lookup_setIn_other h]

/-- The tree without what is at a location and below. -/
def erase (t : FileTree) (loc : Location) : FileTree :=
  ⟨t.entries.filter fun (l, _) => !loc.isPrefixOf l⟩

/-! ## Following paths -/

/-- The greatest number of bytes of a name. -/
def maxNameBytes : Nat := 255

/-- The location of the entry `name` of a directory, which need not be there. -/
def step (here : Location) (name : String) : Except FileError Location :=
  if name = ".." then .ok here.dropLast
  else if maxNameBytes < name.utf8ByteSize then .error .nameTooLong
  else .ok (here ++ [name])

/-- The location that names lead to. All but the last must be directories. -/
def follow (t : FileTree) (here : Location) : List String → Except FileError Location
  | [] => .ok here
  | [name] => step here name
  | name :: names => do
    let next ← step here name
    match t.get? next with
    | none => .error .notFound
    | some (.file _) => .error .notDirectory
    | some .directory => follow t next names

/-- The number of bytes that the text of a path stays below. -/
def pathBytesLimit : Nat := 4096

/-- Checks that a text can be that of a path. -/
def checkText (text : String) : Except FileError Unit :=
  if text.toList.contains '\x00' then .error .badName
  else if pathBytesLimit ≤ text.utf8ByteSize then .error .nameTooLong
  else .ok ()

/-- The location that a path leads to. -/
def locate (t : FileTree) (here : Location) (p : Path) : Except FileError Location := do
  checkText p.text
  t.follow (if p.absolute then [] else here) p.names

/-- What a path leads to. -/
def lookup (t : FileTree) (here : Location) (p : Path) : Except FileError Entry := do
  let loc ← t.locate here p
  match t.get? loc with
  | none => .error .notFound
  | some e => .ok e

/-- Whether a path leads to a directory. -/
def isDirectory (t : FileTree) (here : Location) (p : Path) : Bool :=
  match t.lookup here p with
  | .ok .directory => true
  | _ => false

/-- What a path leads to, as it is typed: a slash at the end asks for a directory. -/
def lookupText (t : FileTree) (here : Location) (text : String) : Except FileError Entry := do
  checkText text
  let e ← t.lookup here (.ofText text)
  match text.toList.reverse, e with
  | [], _ => .error .notFound
  | _, .directory => .ok .directory
  | '/' :: _, .file _ => .error .notDirectory
  | '.' :: '/' :: _, .file _ => .error .notDirectory
  | _, .file content => .ok (.file content)

/-! ## Files -/

/-- The text of a file as it is stored. -/
def readStored (t : FileTree) (here : Location) (p : Path) : Except FileError String := do
  match ← t.lookup here p with
  | .directory => .error .isDirectory
  | .file (.bytes _) => .error .notText
  | .file (.text value) => .ok value

/-- The text of a file, with every line ended by a line feed. -/
def read (t : FileTree) (here : Location) (p : Path) : Except FileError String := do
  let value ← t.readStored here p
  .ok (Text.unified value)

/-- The tree with a text in a file, whose directory must be there. -/
def write (t : FileTree) (here : Location) (p : Path) (value : String) :
    Except FileError FileTree := do
  let loc ← t.locate here p
  match t.get? loc with
  | some .directory => .error .isDirectory
  | _ => .ok (t.set loc (.file (.text value)))

/-! ## Directories -/

/-- The tree with a new directory. -/
def makeDirectory (t : FileTree) (here : Location) (p : Path) : Except FileError FileTree := do
  let loc ← t.locate here p
  match t.get? loc with
  | some _ => .error .alreadyExists
  | none => .ok (t.set loc .directory)

/-- A step that changed the tree, and what stopped it, if anything: the error and the path. -/
abbrev Change := FileTree × Except (FileError × Path) Unit

/-- Makes a directory; one that is there may be enough. -/
def ensureDirectory (t : FileTree) (here : Location) (mayExist : Bool) (p : Path) : Change :=
  match t.makeDirectory here p with
  | .ok made => (made, .ok ())
  | .error e =>
    if e ≠ .notFound && mayExist && t.isDirectory here p then (t, .ok ()) else (t, .error (e, p))

/-- Makes the directory with the given names, last name first, after those above it that are
missing. -/
def ensureNames (t : FileTree) (here : Location) (absolute mayExist : Bool) : List String → Change
  | [] => t.ensureDirectory here mayExist ⟨absolute, []⟩
  | name :: names =>
    let p : Path := ⟨absolute, (name :: names).reverse⟩
    match t.ensureDirectory here mayExist p with
    | (_, .error (.notFound, _)) =>
      match ensureNames t here absolute true names with
      | (above, .ok ()) => above.ensureDirectory here mayExist p
      | stopped => stopped
    | done => done

/-- Makes a directory after those above it that are missing. -/
def makeDirectories (t : FileTree) (here : Location) (mayExist : Bool) (p : Path) : Change :=
  t.ensureNames here p.absolute mayExist p.names.reverse

end FileTree

end TypeDesc
