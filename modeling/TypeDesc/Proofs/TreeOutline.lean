/-
The outline of a file tree: the tree with every text emptied. What only asks
where entries are, and of which kind, is told by the outline: where paths lead,
which files are found, and which command a command line asks for
(`Command.ofLine_outline`). Writing a text over another keeps the outline
(`FileTree.outline_set`).
-/
import TypeDesc.Command.Basic
import TypeDesc.FileTree.Search
import TypeDesc.Proofs.Outcome

namespace TypeDesc

/-- An entry without its text. -/
def Entry.outline : Entry → Entry
  | .file (.text _) => .file (.text "")
  | e => e

namespace FileTree

/-- The tree without its texts. -/
def outline (t : FileTree) : FileTree :=
  ⟨t.entries.map fun (loc, e) => (loc, e.outline)⟩

/-! ## Entries -/

theorem lookup_map_outline (loc : Location) (entries : List (Location × Entry)) :
    (entries.map fun (loc, e) => (loc, e.outline)).lookup loc =
      (entries.lookup loc).map Entry.outline := by
  induction entries with
  | nil => rfl
  | cons entry entries ih =>
    obtain ⟨l, e⟩ := entry
    simp only [List.map_cons, List.lookup_cons, ih]
    split <;> rfl

@[simp] theorem get?_outline (t : FileTree) (loc : Location) :
    t.outline.get? loc = (t.get? loc).map Entry.outline := by
  unfold get? outline
  split
  next => rfl
  next => exact lookup_map_outline loc t.entries

theorem setIn_outline {loc : Location} {old : String} {entries : List (Location × Entry)}
    (h : entries.lookup loc = some (.file (.text old))) (new : String) :
    (setIn loc (.file (.text new)) entries).map (fun (loc, e) => (loc, e.outline)) =
      entries.map fun (loc, e) => (loc, e.outline) := by
  induction entries with
  | nil => cases h
  | cons entry entries ih =>
    obtain ⟨l, e⟩ := entry
    by_cases hl : l = loc
    · subst hl
      obtain rfl : e = .file (.text old) := by simpa [List.lookup_cons] using h
      simp [setIn, Entry.outline]
    · have hne : (loc == l) = false := by simp [Ne.symm hl]
      rw [List.lookup_cons, hne] at h
      simp only [setIn, if_neg hl, List.map_cons, ih h]

/-- Writing a text over another keeps the outline. -/
theorem outline_set {t : FileTree} {loc : Location} {old : String}
    (h : t.get? loc = some (.file (.text old))) (new : String) :
    (t.set loc (.file (.text new))).outline = t.outline := by
  have hlookup : t.entries.lookup loc = some (.file (.text old)) := by
    unfold get? at h
    split at h
    next => cases h
    next => exact h
  exact congrArg FileTree.mk (setIn_outline hlookup new)

/-! ## Paths -/

@[simp] theorem follow_outline (t : FileTree) (here : Location) (names : List String) :
    t.outline.follow here names = t.follow here names := by
  induction names generalizing here with
  | nil => rfl
  | cons name names ih =>
    cases names with
    | nil => rfl
    | cons name' names =>
      simp only [follow]
      cases step here name with
      | error e => rfl
      | ok next =>
        simp only [ok_bind, get?_outline]
        rcases t.get? next with _ | ⟨⟨⟩⟩ | _
        · rfl
        · rfl
        · rfl
        · exact ih next

@[simp] theorem locate_outline (t : FileTree) (here : Location) (p : Path) :
    t.outline.locate here p = t.locate here p := by
  simp only [locate, follow_outline]

theorem lookup_outline (t : FileTree) (here : Location) (p : Path) :
    t.outline.lookup here p = (t.lookup here p).map Entry.outline := by
  simp only [lookup, locate_outline]
  cases t.locate here p with
  | error e => rfl
  | ok loc =>
    simp only [ok_bind, get?_outline]
    cases t.get? loc <;> rfl

@[simp] theorem isDirectory_outline (t : FileTree) (here : Location) (p : Path) :
    t.outline.isDirectory here p = t.isDirectory here p := by
  simp only [isDirectory, lookup_outline]
  rcases t.lookup here p with _ | ⟨⟨⟩⟩ | _ <;> rfl

theorem lookupText_outline (t : FileTree) (here : Location) (text : String) :
    t.outline.lookupText here text = (t.lookupText here text).map Entry.outline := by
  simp only [lookupText, lookup_outline]
  cases checkText text with
  | error e => rfl
  | ok _ =>
    cases t.lookup here (.ofText text) with
    | error e => rfl
    | ok e =>
      -- what the typed text ends with decides, and it is the same on both sides
      simp only [ok_bind, Except.map]
      rcases e with ⟨_ | _⟩ | _ <;> simp only [Entry.outline] <;>
        rcases text.toList.reverse with _ | ⟨c, _ | ⟨d, cs⟩⟩ <;> grind

/-! ## Finding files -/

@[simp] theorem search_outline (t : FileTree) (here : Location) (ending : String) (dir : Path) :
    t.outline.search here ending dir = t.search here ending dir := by
  simp only [search, locate_outline]
  cases t.locate here dir with
  | error e => rfl
  | ok loc =>
    have hsame : (t.outline.entries.filterMap fun (l, _) => loc.below? l) =
        t.entries.filterMap fun (l, _) => loc.below? l := by
      simp only [outline, List.filterMap_map]
      rfl
    simp only [hsame]

@[simp] theorem nearest_outline (t : FileTree) (here : Location) (name : String) (p : Path) :
    t.outline.nearest here name p = t.nearest here name p := by
  simp only [nearest, get?_outline, Option.isSome_map]
  rcases t.get? _ with _ | ⟨⟨⟩⟩ | _ <;> rfl

end FileTree

/-! ## Command lines -/

namespace Command

variable {look look' : Look} (h : ∀ text, look' text = (look text).map Entry.outline)
include h

theorem entry?_outline (text : String) :
    entry? look' text = ( entry? look text).map (Option.map Entry.outline) := by
  simp only [ entry?, h]
  rcases look text with e | _
  · cases e <;> rfl
  · rfl

theorem checkOutput_outline (parameter text : String) :
    checkOutput look' parameter text = checkOutput look parameter text := by
  simp only [checkOutput, entry?_outline h]
  rcases entry? look text with _ | _ | ⟨⟨⟩⟩ | _ <;> rfl

theorem checkFile_outline (text : String) : checkFile look' text = checkFile look text := by
  simp only [checkFile, entry?_outline h]
  rcases entry? look text with _ | _ | ⟨⟨⟩⟩ | _ <;> rfl

theorem checkPath_outline (text : String) : checkPath look' text = checkPath look text := by
  simp only [checkPath, entry?_outline h]
  rcases entry? look text with _ | _ | ⟨⟨⟩⟩ | _ <;> rfl

theorem readNamed_outline (name : String) (items : List String) :
    readNamed look' name items = readNamed look name items := by
  have hoption : checkGenOption look' = checkGenOption look := by
    funext name value
    simp only [checkGenOption, checkOutput_outline h]
  simp only [readNamed, readGen, readOnFile, readOnPath, hoption, checkFile_outline h,
    checkPath_outline h]

/-- Which command a command line asks for is told by the outline of the files. -/
theorem ofLine_outline (items : List String) : ofLine look' items = ofLine look items := by
  simp only [ofLine, readNamed_outline h]

end Command

/-! ## Trees of one outline -/

namespace FileTree

variable {t t' : FileTree} (h : t'.outline = t.outline)
include h

theorem locate_congr (here : Location) : t'.locate here = t.locate here := by
  funext p
  rw [← locate_outline, h, locate_outline]

theorem isDirectory_congr (here : Location) (p : Path) :
    t'.isDirectory here p = t.isDirectory here p := by
  rw [← isDirectory_outline, h, isDirectory_outline]

theorem search_congr (here : Location) (ending : String) (dir : Path) :
    t'.search here ending dir = t.search here ending dir := by
  rw [← search_outline, h, search_outline]

theorem nearest_congr (here : Location) (name : String) (p : Path) :
    t'.nearest here name p = t.nearest here name p := by
  rw [← nearest_outline, h, nearest_outline]

/-- A command line asks for the same in trees of one outline. -/
theorem ofLine_congr (here : Location) (items : List String) :
    Command.ofLine (t'.lookupText here) items = Command.ofLine (t.lookupText here) items := by
  rw [← Command.ofLine_outline (t'.lookupText_outline here), h,
    Command.ofLine_outline (t.lookupText_outline here)]

end FileTree

end TypeDesc
