/-
A TOML document while it is being read. Headers and dotted keys make tables and
fill them step by step; a table that a header has opened, or that dotted keys of
an earlier section have made, is not opened again, and a value never changes.
-/
import TypeDesc.Toml.Value

namespace TypeDesc.Toml

/-- What made a table. -/
inductive Mark
  /-- Only a longer header mentions it. -/
  | implied
  /-- Dotted keys of the section with this number. -/
  | dotted (part : Nat)
  /-- A header of its own. -/
  | opened
deriving DecidableEq, Repr

/-- Whether a table can still be extended by dotted keys, or opened, in a section. -/
def Mark.isOpenFor (mark : Mark) (part : Nat) : Bool :=
  match mark with
  | .implied => true
  | .dotted made => made == part
  | .opened => false

/-- A part of a document. -/
inductive Node
  | value (v : Value)
  | table (mark : Mark) (entries : List (String × Node))
  /-- Tables under one header; only the last one grows. -/
  | tables (earlier : List Value) (entries : List (String × Node))
deriving Repr

/-- The entries of a table that is being read. -/
abbrev Entries := List (String × Node)

namespace Node

mutual
/-- The value of a part of a document. -/
def toValue : Node → Value
  | .value v => v
  | .table _ entries => .table (toValues entries)
  | .tables earlier entries => .array (earlier ++ [.table (toValues entries)])

/-- The values of the entries of a table. -/
def toValues : List (String × Node) → List (String × Value)
  | [] => []
  | (key, node) :: entries => (key, toValue node) :: toValues entries
end

end Node

namespace Entries

/-- The entries with what is at `key` replaced by `f` of it. -/
def update (f : Option Node → Option Node) (key : String) : Entries → Option Entries
  | [] => (f none).map fun node => [(key, node)]
  | (k, node) :: entries =>
    if k = key then (f (some node)).map fun node => (k, node) :: entries
    else (update f key entries).map ((k, node) :: ·)

/-- Changes the table that a path leads to, making the tables on the way that are missing. The way
goes through the last of several tables, and never through a value. -/
def within (f : Entries → Option Entries) : List String → Entries → Option Entries
  | [], entries => f entries
  | key :: path, entries =>
    update (fun node =>
      match node with
      | none => (within f path []).map (.table .implied)
      | some (.table mark inner) => (within f path inner).map (.table mark)
      | some (.tables earlier inner) => (within f path inner).map (.tables earlier)
      | some (.value _) => none) key entries

/-- Puts a value at a key that is not there yet. -/
def define (v : Value) (key : String) (entries : Entries) : Option Entries :=
  update (fun node => if node.isNone then some (.value v) else none) key entries

/-- Puts a value at a dotted key, in the section `part`. Every table on the way must be open. -/
def defineDotted (part : Nat) (v : Value) : List String → String → Entries → Option Entries
  | [], stem, entries => define v stem entries
  | key :: path, stem, entries =>
    update (fun node =>
      match node with
      | none => (defineDotted part v path stem []).map (.table (.dotted part))
      | some (.table mark inner) =>
        if mark.isOpenFor part then
          (defineDotted part v path stem inner).map (.table (.dotted part))
        else none
      | _ => none) key entries

/-- Opens the table with the name `key`, in the section `part`. -/
def openTable (part : Nat) (key : String) (entries : Entries) : Option Entries :=
  update (fun node =>
    match node with
    | none => some (.table .opened [])
    | some (.table mark inner) => if mark.isOpenFor part then some (.table .opened inner) else none
    | _ => none) key entries

/-- Opens one more of the tables with the name `key`. -/
def openNext (key : String) (entries : Entries) : Option Entries :=
  update (fun node =>
    match node with
    | none => some (.tables [] [])
    | some (.tables earlier inner) => some (.tables (earlier ++ [.table (Node.toValues inner)]) [])
    | _ => none) key entries

end Entries

/-- A key: the names before its last one, and the last. -/
structure Key where
  path : List String
  stem : String
deriving DecidableEq, Repr

/-- All names of a key. -/
def Key.names (key : Key) : List String :=
  key.path ++ [key.stem]

/-- A document and the table that is being filled. -/
structure Document where
  entries : Entries := []
  /-- The names of the header of the current section. -/
  header : List String := []
  /-- The number of the current section. -/
  part : Nat := 0

namespace Document

/-- Puts a value at a key of the current section. -/
def define (d : Document) (key : Key) (v : Value) : Option Document :=
  (Entries.within (Entries.defineDotted d.part v key.path key.stem) d.header d.entries).map
    fun entries => { d with entries }

/-- Starts the section of a table. -/
def openTable (d : Document) (key : Key) : Option Document :=
  (Entries.within (Entries.openTable (d.part + 1) key.stem) key.path d.entries).map
    fun entries => ⟨entries, key.names, d.part + 1⟩

/-- Starts the section of one more table of several. -/
def openNext (d : Document) (key : Key) : Option Document :=
  (Entries.within (Entries.openNext key.stem) key.path d.entries).map
    fun entries => ⟨entries, key.names, d.part + 1⟩

end Document

end TypeDesc.Toml
