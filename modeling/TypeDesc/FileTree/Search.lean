/-
Finding files: the entries below a directory whose names have a given ending, in
the order of their names, and the nearest directory on the way up that has an
entry of a given name.
-/
import TypeDesc.FileTree.Basic

namespace TypeDesc

namespace Location

/-- Whether one location comes before another, or is it: the first names that differ decide. -/
def le : Location → Location → Bool
  | [], _ => true
  | _ :: _, [] => false
  | a :: as, b :: bs => if a = b then le as bs else a < b

/-- A location put in its place among ordered ones. -/
def insert (loc : Location) : List Location → List Location
  | [] => [loc]
  | l :: ls => if le loc l then loc :: l :: ls else l :: insert loc ls

/-- Locations in order. -/
def sort : List Location → List Location
  | [] => []
  | loc :: locs => insert loc (sort locs)

theorem mem_insert {l loc : Location} {locs : List Location} :
    l ∈ insert loc locs ↔ l = loc ∨ l ∈ locs := by
  induction locs with
  | nil => simp [insert]
  | cons k locs ih =>
    rw [insert]
    split
    · simp
    · rw [List.mem_cons, ih, List.mem_cons]
      exact or_left_comm

theorem mem_sort {l : Location} {locs : List Location} : l ∈ sort locs ↔ l ∈ locs := by
  induction locs with
  | nil => simp [sort]
  | cons k locs ih => rw [sort, mem_insert, ih, List.mem_cons]

/-- The names that lead from a directory to an entry below it. -/
def below? : Location → Location → Option Location
  | [], [] => none
  | [], name :: names => some (name :: names)
  | _ :: _, [] => none
  | a :: as, b :: bs => if a = b then below? as bs else none

/-- A location, given last name first, and those above it, nearest first. -/
def upward : List String → List Location
  | [] => [[]]
  | name :: names => (name :: names).reverse :: upward names

/-- The location that names lead to when nothing is in the way. -/
def advance : Location → List String → Location
  | here, [] => here
  | here, name :: names =>
    advance (if name = ".." then here.dropLast else here ++ [name]) names

end Location

namespace FileTree

/-- Whether a name ends with the characters `ending`. -/
def endsWith (ending name : String) : Bool :=
  ending.toList.reverse.isPrefixOf name.toList.reverse

/-- Whether the last name of a location ends with `ending`. -/
def hasEnding (ending : String) (loc : Location) : Bool :=
  match loc.getLast? with
  | none => false
  | some name => endsWith ending name

/-- The entries at any depth below a directory whose names end with `ending`, in order. -/
def search (t : FileTree) (here : Location) (ending : String) (dir : Path) : List Path :=
  match t.locate here dir with
  | .error _ => []
  | .ok loc =>
    let found := (t.entries.filterMap fun (l, _) => loc.below? l).filter (hasEnding ending)
    (Location.sort found).map fun names => ⟨dir.absolute, dir.names ++ names⟩

/-- The nearest directory that has an entry `name`, from where a path leads, upward. -/
def nearest (t : FileTree) (here : Location) (name : String) (p : Path) : Option Location :=
  let loc := Location.advance (if p.absolute then [] else here) p.names
  let dir := match t.get? loc with
    | some (.file _) => loc.dropLast
    | _ => loc
  (Location.upward dir.reverse).find? fun above => (t.get? (above ++ [name])).isSome

end FileTree

end TypeDesc
