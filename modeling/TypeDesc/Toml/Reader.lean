/-
Reading a TOML document: one statement a line, a statement being the header of a
table or a key with its value. A document with any mistake is refused as a whole.
-/
import TypeDesc.Text.Lines
import TypeDesc.Toml.Number

namespace TypeDesc.Toml

open Defect (orMalformed)

/-! ## Values -/

/-- The characters after `word`, which must come first. -/
def expectWord (word : String) (cs : List Char) : Option (List Char) :=
  if cs.take word.length = word.toList then some (cs.drop word.length) else none

/-- One of the two truth values. -/
def readBoolean (cs : List Char) : Option (Value × List Char) :=
  match expectWord "true" cs with
  | some rest => some (.boolean true, rest)
  | none => (expectWord "false" cs).map fun rest => (.boolean false, rest)

/-- A value that holds no other value. -/
def readSimple : List Char → Except Defect (Value × List Char)
  | [] => .error .malformed
  | c :: cs =>
    if isQuote c then orMalformed ((readText c cs).map fun (value, rest) => (.text value, rest))
    else
      match readBoolean (c :: cs) with
      | some found => .ok found
      | none => readNumber (c :: cs)

mutual
/-- A value; `fuel` bounds the readers within one another. -/
def readValue : Nat → List Char → Except Defect (Value × List Char)
  | 0, _ => .error .malformed
  | _ + 1, [] => .error .malformed
  | fuel + 1, c :: cs =>
    if c = '[' then do
      let cs ← orMalformed (skipGap false cs)
      match expect ']' cs with
      | some rest => .ok (.array [], rest)
      | none => do
        let (items, rest) ← readItems fuel cs
        .ok (.array items, rest)
    else if c = '\x7b' then
      match expect '\x7d' (skipSpaces cs) with
      | some rest => .ok (.table [], rest)
      | none => do
        let (entries, rest) ← readPairs fuel [] (skipSpaces cs)
        .ok (.table (Node.toValues entries), rest)
    else readSimple (c :: cs)

/-- The items of an array and its closing bracket. -/
def readItems : Nat → List Char → Except Defect (List Value × List Char)
  | 0, _ => .error .malformed
  | fuel + 1, cs => do
    let (item, cs) ← readValue fuel cs
    let cs ← orMalformed (skipGap false cs)
    match expect ']' cs with
    | some rest => .ok ([item], rest)
    | none => do
      let cs ← orMalformed (expect ',' cs)
      let cs ← orMalformed (skipGap false cs)
      match expect ']' cs with
      | some rest => .ok ([item], rest)
      | none => do
        let (items, rest) ← readItems fuel cs
        .ok (item :: items, rest)

/-- The pairs of a table on one line and its closing brace, after the pairs `entries`. -/
def readPairs : Nat → Entries → List Char → Except Defect (Entries × List Char)
  | 0, _, _ => .error .malformed
  | fuel + 1, entries, cs => do
    let (key, cs) ← orMalformed (readKey cs)
    let cs ← orMalformed (expect '=' cs)
    let (value, cs) ← readValue fuel (skipSpaces cs)
    let entries ← orMalformed (Entries.defineDotted 0 value key.path key.stem entries)
    match expect '\x7d' (skipSpaces cs) with
    | some rest => .ok (entries, rest)
    | none => do
      let cs ← orMalformed (expect ',' (skipSpaces cs))
      readPairs fuel entries (skipSpaces cs)
end

/-! ## Statements -/

/-- A header, after its first bracket. -/
def readHeader (d : Document) (cs : List Char) : Option (Document × List Char) :=
  match expect '[' cs with
  | some cs => do
    let (key, cs) ← readKey (skipSpaces cs)
    let d ← d.openNext key
    let cs ← expect ']' cs
    let rest ← expect ']' cs
    some (d, rest)
  | none => do
    let (key, cs) ← readKey (skipSpaces cs)
    let d ← d.openTable key
    let rest ← expect ']' cs
    some (d, rest)

/-- A key and its value. -/
def readDefinition (d : Document) (cs : List Char) : Except Defect (Document × List Char) := do
  let (key, cs) ← orMalformed (readKey cs)
  let cs ← orMalformed (expect '=' cs)
  let (value, rest) ← readValue (2 * cs.length + 1) (skipSpaces cs)
  let d ← orMalformed (d.define key value)
  .ok (d, rest)

/-- What a line holds besides its comment. -/
def readStatement (d : Document) : List Char → Except Defect (Document × List Char)
  | [] => .ok (d, [])
  | c :: cs =>
    if c = '\n' || c = '#' then .ok (d, c :: cs)
    else if c = '[' then orMalformed (readHeader d cs)
    else readDefinition d (c :: cs)

/-- The statements of a document; there are at most `fuel` lines. -/
def readStatements : Nat → Document → List Char → Except Defect Document
  | 0, _, _ => .error .malformed
  | fuel + 1, d, cs => do
    let (d, cs) ← readStatement d (skipSpaces cs)
    let cs ← orMalformed (skipComment (skipSpaces cs))
    match cs with
    | [] => .ok d
    | c :: cs => if c = '\n' then readStatements fuel d cs else .error .malformed

/-- The entries of a document. -/
def read (text : String) : Except Defect (List (String × Value)) :=
  let cs := Text.unifyPairs text.toList
  (readStatements (cs.length + 1) {} cs).map fun d => Node.toValues d.entries

end TypeDesc.Toml
