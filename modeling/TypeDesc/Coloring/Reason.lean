/-
Reason text in the colors of a terminal. The classes are those of the Reason
language. Comments, texts between double quotes and names behind a point have
rules of their own; a comment may hold other comments.
-/
import TypeDesc.Coloring.Rule
import TypeDesc.Text.Decimal
import TypeDesc.Text.Escape

namespace TypeDesc.Coloring

/-- The classes of text in a Reason module. -/
inductive ReasonClass
  | blank
  | literal
  /-- A module, before a point. -/
  | moduleName
  | ctorName
  | comment
  | keyword
  | mark
  | operator
  | primitive
  | name
  | number
  /-- A character or a text between quotes. -/
  | quoted
  /-- The quote before a type variable. -/
  | quote
  | stray
deriving DecidableEq, Repr

/-- Where in a Reason module a piece stands. -/
inductive ReasonMode
  | code
  /-- Behind the name of a module. -/
  | path
  /-- Within a comment that stands in `depth` others. -/
  | comment (depth : Nat)
  /-- Between double quotes. -/
  | text
deriving DecidableEq, Repr

namespace ReasonClass

/-! ## Words and marks -/

/-- The keywords of Reason. -/
def keywords : List String :=
  ["as", "assert", "begin", "class", "constraint", "do", "done", "downto", "else", "end",
    "exception", "external", "false", "for", "fun", "esfun", "function", "functor", "if", "in",
    "include", "inherit", "initializer", "lazy", "let", "switch", "module", "pub", "mutable",
    "new", "nonrec", "object", "of", "open", "pri", "rec", "sig", "struct", "then", "to", "true",
    "try", "type", "val", "virtual", "when", "while", "with"]

/-- The marks of Reason; of two that start alike, the one to be tried first comes first. -/
def marks : List String :=
  ["~", "\x7d", "|]", "||", "|", "\x7b<", "\x7b", "`", "_", "]", "[|", "[>", "[<", "[", "??", "?",
    ">\x7d", ">]", ">", "=", "<-", "<", ";;", ";", ":>", ":=", "::", ":", "...", "..", ".", "-.",
    "-", ",", "+", "*", ")", "(", "&&", "&", "#", "!="]

/-- The operators of Reason that are words. -/
def wordOperators : List String :=
  ["and", "asr", "land", "lor", "lsl", "lsr", "lxor", "mod", "or"]

/-- The types that Reason has built in. -/
def primitives : List String :=
  ["unit", "int", "float", "bool", "string", "char", "list", "array"]

/-- Whether a word of Reason may go on with `c`. -/
def continuesName (c : Char) : Bool :=
  Text.isWordChar c || c == '\x27'

/-- Whether `c` is an ASCII letter in upper case. -/
def isCapital (c : Char) : Bool :=
  'A' ≤ c && c ≤ 'Z'

/-- A word that starts in upper case. -/
def capitalized? (cs : List Char) : Option (List Char) :=
  headAndRun isCapital continuesName cs

/-- A word that starts in upper case, before a point. -/
def beforePoint? (cs : List Char) : Option (List Char) :=
  match capitalized? cs with
  | none => none
  | some word =>
    if ((cs.drop word.length).dropWhile Text.isBlank).head? = some '.' then some word else none

/-- What `find` finds, where no word goes on. -/
def atWordStart (find : List Char → Option (List Char)) (before : Option Char) (cs : List Char) :
    Option (List Char) :=
  if inWord before then none else find cs

/-- Whether `c` may be an operator alone. -/
def isOperator (c : Char) : Bool :=
  "!$%&*+./:<=>?@^|~-".toList.contains c

/-- Whether `c` may stand before the last character of an operator. -/
def opensOperator (c : Char) : Bool :=
  "=<>@^|&+*/$%-!?~".toList.contains c

/-- An operator of one character or two. -/
def operator? (cs : List Char) : Option (List Char) :=
  match cs with
  | c :: d :: _ =>
    if opensOperator c && isOperator d then some [c, d]
    else if isOperator c then some [c]
    else none
  | [c] => if isOperator c then some [c] else none
  | [] => none

/-! ## Numbers -/

/-- Digits and underscores, with a digit first. -/
def digits? (cs : List Char) : Option (List Char) :=
  headAndRun Text.isDecimal (fun c => Text.isDecimal c || c == '_') cs

/-- The letter for an exponent, a sign if there is one, and digits. -/
def exponent? (cs : List Char) : Option (List Char) :=
  match cs with
  | [] => none
  | c :: cs =>
    if c = 'e' || c = 'E' then
      let sign := (cs.take 1).filter fun d => d = '+' || d = '-'
      (digits? (cs.drop sign.length)).map fun digits => c :: sign ++ digits
    else none

/-- A character that divides a number, whatever it is, then digits and an exponent. -/
def dividedExponent? (cs : List Char) : Option (List Char) :=
  match cs with
  | [] => none
  | c :: cs =>
    let digits := cs.takeWhile fun d => Text.isDecimal d || d == '_'
    if c = '\n' then none
    else (exponent? (cs.drop digits.length)).map fun e => c :: digits ++ e

/-- A number with an exponent. -/
def withExponent? (cs : List Char) : Option (List Char) :=
  match digits? cs with
  | none => none
  | some digits =>
    let rest := cs.drop digits.length
    ((dividedExponent? rest).orElse fun _ => exponent? rest).map (digits ++ ·)

/-- A number in a base that one of two letters after a zero announces. -/
def announced? (letters : List Char) (isDigit : Char → Bool) (cs : List Char) :
    Option (List Char) :=
  match cs with
  | '0' :: letter :: cs =>
    if letters.contains letter then
      (headAndRun isDigit (fun c => isDigit c || c == '_') cs).map fun digits =>
        '0' :: letter :: digits
    else none
  | _ => none

/-- Whether `c` is a digit in base sixteen. -/
def isHexDigit (c : Char) : Bool :=
  Text.isDecimal c || ('a' ≤ c && c ≤ 'f') || ('A' ≤ c && c ≤ 'F')

/-! ## Quotes -/

/-- A backslash and what it stands before: one of the characters in `letters`, three digits, or the
letter `x` and two digits in base sixteen. -/
def escape? (letters : String) (cs : List Char) : Option (List Char) :=
  let isHex c := Text.isAsciiDigit c || ('a' ≤ c && c ≤ 'f') || ('A' ≤ c && c ≤ 'F')
  match cs with
  | '\\' :: c :: cs =>
    if letters.toList.contains c then some ['\\', c]
    else if Text.isAsciiDigit c then
      if (cs.take 2).length = 2 && (cs.take 2).all Text.isAsciiDigit then
        some ('\\' :: c :: cs.take 2)
      else none
    else if c = 'x' then
      if (cs.take 2).length = 2 && (cs.take 2).all isHex then some ('\\' :: c :: cs.take 2)
      else none
    else none
  | _ => none

/-- An escaped character between quotes. -/
def escapedCharacter? (cs : List Char) : Option (List Char) :=
  match cs with
  | '\x27' :: cs =>
    match escape? "\\\"'ntbr " cs with
    | none => none
    | some escape =>
      if (cs.drop escape.length).head? = some '\x27' then some ('\x27' :: escape ++ ['\x27'])
      else none
  | _ => none

/-- A character between quotes. -/
def character? (cs : List Char) : Option (List Char) :=
  match cs with
  | '\x27' :: c :: '\x27' :: _ => if c = '\n' then none else some ['\x27', c, '\x27']
  | _ => none

/-! ## Comments -/

/-- Two slashes and the rest of their line, with its end. -/
def lineComment? (cs : List Char) : Option (List Char) :=
  match cs with
  | '/' :: '/' :: cs =>
    if cs.contains '\n' then some ('/' :: '/' :: cs.takeWhile (· ≠ '\n') ++ ['\n']) else none
  | _ => none

/-- The opening of a comment. -/
def opening? (cs : List Char) : Option (List Char) :=
  match cs with
  | '/' :: '*' :: cs => if cs.head? = some '/' then none else some ['/', '*']
  | _ => none

/-! ## The rules -/

/-- The rules for code. -/
def codeRules : List (Rule ReasonClass × ReasonMode) :=
  [(plainRule blank (run Text.isBlank), .code),
    (plainRule literal (oneOf ["false", "true", "()", "[]"]), .code),
    (rule moduleName (atWordStart beforePoint?), .path),
    (rule ctorName (atWordStart capitalized?), .code),
    (plainRule comment lineComment?, .code),
    (plainRule comment opening?, .comment 0),
    (rule keyword (wholeWord keywords), .code),
    (plainRule mark (oneOf marks), .code),
    (plainRule operator operator?, .code),
    (rule mark (wholeWord wordOperators), .code),
    (rule primitive (wholeWord primitives), .code),
    (plainRule name (headAndRun (fun c => Text.isWordChar c && !Text.isDecimal c) continuesName),
      .code),
    (plainRule number withExponent?, .code),
    (plainRule number (announced? ['x', 'X'] isHexDigit), .code),
    (plainRule number (announced? ['o', 'O'] fun c => '0' ≤ c && c ≤ '7'), .code),
    (plainRule number (announced? ['b', 'B'] fun c => c == '0' || c == '1'), .code),
    (plainRule number digits?, .code),
    (plainRule quoted escapedCharacter?, .code),
    (plainRule quoted character?, .code),
    (plainRule quote (single (· == '\x27')), .code),
    (plainRule quoted (single (· == '"')), .text)]

/-- The rules behind the name of a module: points and names, up to the first name that is not a
module's. What is none of these is code. -/
def pathRules : List (Rule ReasonClass × ReasonMode) :=
  [(plainRule blank (run Text.isBlank), .path),
    (plainRule operator (single (· == '.')), .path),
    (plainRule moduleName beforePoint?, .path),
    (plainRule ctorName capitalized?, .code),
    (plainRule name (headAndRun (fun c => ('a' ≤ c && c ≤ 'z') || c == '_') continuesName), .code)]
    ++ codeRules ++ [(plainRule stray (single fun _ => true), .code)]

/-- The rules within a comment that stands in `depth` others. -/
def commentRules (depth : Nat) : List (Rule ReasonClass × ReasonMode) :=
  [(plainRule comment (run fun c => c != '/' && c != '*'), .comment depth),
    (plainRule comment (oneOf ["/*"]), .comment (depth + 1)),
    (plainRule comment (oneOf ["*/"]), if depth = 0 then .code else .comment (depth - 1)),
    (plainRule comment (single (· == '*')), .comment depth)]

/-- The rules between double quotes. -/
def textRules : List (Rule ReasonClass × ReasonMode) :=
  [(plainRule quoted (run fun c => c != '\\' && c != '"'), .text),
    (plainRule quoted (escape? "\\\"'ntbr"), .text),
    (plainRule quoted (oneOf ["\\\n"]), .text),
    (plainRule quoted (single (· == '"')), .code)]

/-- The rules for Reason. -/
def rules : Rules ReasonMode ReasonClass
  | .code => codeRules
  | .path => pathRules
  | .comment depth => commentRules depth
  | .text => textRules

/-- The escape sequences that switch on the color of a class, if it has one. -/
def color? : ReasonClass → Option String
  | .literal => some (Text.colorCode "36")
  | .moduleName => some (Text.colorCode "04" ++ Text.colorCode "36")
  | .ctorName => some (Text.colorCode "04" ++ Text.colorCode "32")
  | .comment => some (Text.colorCode "37")
  | .keyword => some (Text.colorCode "34")
  | .mark => some (Text.colorCode "35")
  | .primitive => some (Text.colorCode "36")
  | .number => some (Text.colorCode "34")
  | .quoted => some (Text.colorCode "33")
  | .quote => some (Text.colorCode "34")
  | .stray => some (Text.colorCode "04" ++ Text.colorCode "91")
  | .blank => none
  | .operator => none
  | .name => none

end ReasonClass

/-- A line in a color, which does not reach over the line feed at its end. -/
def coloredLine (start : String) (line : List Char) : String :=
  start ++ String.ofList (line.filter (· ≠ '\n')) ++ Text.colorCode "39;49;00" ++
    String.ofList (line.filter (· = '\n'))

/-- A piece of Reason text in its color, line by line. -/
def Piece.colored (piece : Piece ReasonClass) : String :=
  match piece.kind.color? with
  | some start => String.join ((Text.cutLines piece.text).map (coloredLine start))
  | none => String.ofList piece.text

/-- Reason text in the colors of a terminal. -/
def reasonText (source : String) : String :=
  String.join ((cutIn ReasonClass.rules .stray .code source).map Piece.colored)

end TypeDesc.Coloring
