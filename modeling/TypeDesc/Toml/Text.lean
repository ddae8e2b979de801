/-
Texts and keys of TOML. A basic text stands between double quotes and knows
escapes; a literal text stands between single quotes and knows none. Either kind
may run over several lines, between three quotes. Readers take the characters
that are left and give what they read with the characters after it.
-/
import TypeDesc.Text.Alphanumeric
import TypeDesc.Text.Quoted
import TypeDesc.Toml.Document

namespace TypeDesc.Toml

/-! ## Blanks and comments -/

/-- Whether `c` is a blank between the parts of a statement. -/
def isSpace (c : Char) : Bool :=
  c = ' ' || c = '\t'

/-- Whether `c` may stand in a comment or in a text of one line. -/
def isLineChar (c : Char) : Bool :=
  c = '\t' || (32 ≤ c.toNat && c.toNat ≠ 127)

/-- The characters after the blanks. -/
def skipSpaces (cs : List Char) : List Char :=
  cs.dropWhile isSpace

/-- The characters after a comment, which ends with its line. -/
def skipComment : List Char → Option (List Char)
  | [] => some []
  | c :: cs =>
    if c = '#' then
      match cs.dropWhile isLineChar with
      | [] => some []
      | d :: rest => if d = '\n' then some (d :: rest) else none
    else some (c :: cs)

/-- The characters after the blanks, line ends and comments between the items of an array. -/
def skipGap (inComment : Bool) : List Char → Option (List Char)
  | [] => some []
  | c :: cs =>
    if inComment then
      if c = '\n' then skipGap false cs
      else if isLineChar c then skipGap true cs
      else none
    else if c = '#' then skipGap true cs
    else if isSpace c || c = '\n' then skipGap false cs
    else some (c :: cs)

/-- The characters after `c`, which must come first. -/
def expect (c : Char) : List Char → Option (List Char)
  | [] => none
  | d :: cs => if d = c then some cs else none

/-! ## Digits -/

/-- The value of a digit of base sixteen. -/
def hexDigit? (c : Char) : Option Nat :=
  if '0' ≤ c && c ≤ '9' then some (c.toNat - 48)
  else if 'a' ≤ c && c ≤ 'f' then some (c.toNat - 87)
  else if 'A' ≤ c && c ≤ 'F' then some (c.toNat - 55)
  else none

/-- The character with a code point, which must be a scalar value. -/
def charOf? (code : Nat) : Option Char :=
  if code.isValidChar then some (Char.ofNat code) else none

/-! ## Basic texts -/

/-- The characters that an escape letter stands for. -/
def escapes : List (Char × Char) :=
  [('b', '\x08'), ('t', '\t'), ('n', '\n'), ('f', '\x0c'), ('r', '\r'),
    (Text.doubleQuote, Text.doubleQuote), ('\\', '\\')]

/-- Where the reader of a basic text stands. -/
inductive TextState
  | plain
  /-- After a backslash. -/
  | escape
  /-- In the code point of an escape: the digits that are left, and the value so far. -/
  | code (left value : Nat)
  /-- After a backslash and a blank; the line must end before anything else comes. -/
  | lineEnd
  /-- After a backslash at the end of a line; blanks and line ends do not count. -/
  | fold
deriving DecidableEq, Repr

/-- A reading with `c` put before the characters that were read. -/
def pushed (c : Char) (reading : Option (List Char × List Char)) : Option (List Char × List Char) :=
  reading.map fun (read, rest) => (c :: read, rest)

/-- The characters of a basic text, up to its closing quotes. -/
def readBasic (block : Bool) : TextState → List Char → Option (List Char × List Char)
  | _, [] => none
  | .escape, c :: cs =>
    if c = 'u' then readBasic block (.code 4 0) cs
    else if c = 'U' then readBasic block (.code 8 0) cs
    else if block && isSpace c then readBasic block .lineEnd cs
    else if block && c = '\n' then readBasic block .fold cs
    else (escapes.lookup c).bind fun d => pushed d (readBasic block .plain cs)
  | .code left value, c :: cs =>
    (hexDigit? c).bind fun digit =>
      if left ≤ 1 then
        (charOf? (16 * value + digit)).bind fun d => pushed d (readBasic block .plain cs)
      else readBasic block (.code (left - 1) (16 * value + digit)) cs
  | .lineEnd, c :: cs =>
    if isSpace c then readBasic block .lineEnd cs
    else if c = '\n' then readBasic block .fold cs
    else none
  | state, c :: cs =>
    if state = .fold && (isSpace c || c = '\n') then readBasic block .fold cs
    else if c = Text.doubleQuote then
      if !block then some ([], cs)
      else if cs.take 2 = [Text.doubleQuote, Text.doubleQuote] then some ([], cs.drop 2)
      else pushed c (readBasic block .plain cs)
    else if c = '\\' then readBasic block .escape cs
    else if isLineChar c || (block && c = '\n') then pushed c (readBasic block .plain cs)
    else none

/-! ## Literal texts -/

/-- The characters of a literal text, up to its closing quotes. -/
def readLiteral (block : Bool) : List Char → Option (List Char × List Char)
  | [] => none
  | c :: cs =>
    if c = Text.singleQuote then
      if !block then some ([], cs)
      else if cs.take 2 = [Text.singleQuote, Text.singleQuote] then some ([], cs.drop 2)
      else pushed c (readLiteral block cs)
    else if isLineChar c || (block && c = '\n') then pushed c (readLiteral block cs)
    else none

/-! ## Texts -/

/-- The characters after one line end, if one comes first. -/
def skipLineEnd : List Char → List Char
  | [] => []
  | c :: cs => if c = '\n' then cs else c :: cs

/-- A text of several lines may end with one or two quotes of its own kind. -/
def withClosingQuotes (mark : Char) (reading : Option (List Char × List Char)) :
    Option (List Char × List Char) :=
  reading.map fun (read, rest) =>
    let extra := (rest.take 2).takeWhile (· = mark)
    (read ++ extra, rest.drop extra.length)

/-- The text after a quote that has been read. -/
def readQuoted (mark : Char) (block : Bool) (cs : List Char) : Option (String × List Char) :=
  let reading :=
    if mark = Text.doubleQuote then readBasic block .plain cs else readLiteral block cs
  reading.map fun (read, rest) => (String.ofList read, rest)

/-- The text after three quotes that have been read. -/
def readBlock (mark : Char) (cs : List Char) : Option (String × List Char) :=
  let cs := skipLineEnd cs
  let reading :=
    if mark = Text.doubleQuote then readBasic true .plain cs else readLiteral true cs
  (withClosingQuotes mark reading).map fun (read, rest) => (String.ofList read, rest)

/-- The text that starts with the quote `mark`, which has been read. -/
def readText (mark : Char) (cs : List Char) : Option (String × List Char) :=
  if cs.take 2 = [mark, mark] then readBlock mark (cs.drop 2) else readQuoted mark false cs

/-- Whether `c` is a quote. -/
def isQuote (c : Char) : Bool :=
  c = Text.doubleQuote || c = Text.singleQuote

/-! ## Keys -/

/-- Whether `c` may stand in a name without quotes. -/
def isBareChar (c : Char) : Bool :=
  Text.isAsciiLetter c || Text.isAsciiDigit c || c = '-' || c = '_'

/-- One name of a key. -/
def readName : List Char → Option (String × List Char)
  | [] => none
  | c :: cs =>
    if isBareChar c then
      some (String.ofList (c :: cs.takeWhile isBareChar), cs.dropWhile isBareChar)
    else if isQuote c then readQuoted c false cs
    else none

/-- The names of a key, with dots between them; there are at most `fuel`. -/
def readNames : Nat → List Char → Option (List String × List Char)
  | 0, _ => none
  | fuel + 1, cs => do
    let (name, cs) ← readName cs
    match skipSpaces cs with
    | [] => some ([name], [])
    | c :: cs =>
      if c = '.' then do
        let (names, rest) ← readNames fuel (skipSpaces cs)
        some (name :: names, rest)
      else some ([name], c :: cs)

/-- A key and the blanks after it. -/
def readKey (cs : List Char) : Option (Key × List Char) := do
  let (names, rest) ← readNames cs.length cs
  let stem ← names.getLast?
  some (⟨names.dropLast, stem⟩, rest)

end TypeDesc.Toml
