/-
From text to tokens. The text is first cut into lexemes: blanks, comments, whole
words, punctuation and stray characters, in order and without loss. Tokens are
the words and the punctuation; a stray character is an error, and all of them
are reported.
-/
import TypeDesc.Finding
import TypeDesc.Text.Alphanumeric
import TypeDesc.Text.Blank
import TypeDesc.Token

namespace TypeDesc

/-- A piece of a text. -/
inductive Lexeme
  | blank (c : Char)
  /-- A comment: two slashes and the rest of their line. -/
  | comment (body : List Char)
  | word (first : Char) (more : List Char)
  | mark (c : Char) (kind : TokenKind)
  | stray (c : Char)
deriving DecidableEq, Repr

namespace Lexeme

/-- Whether a word may start with `c`. -/
def startsWord (c : Char) : Bool :=
  Text.isAsciiLetter c || c == '_'

/-- Whether a word may go on with `c`. -/
def continuesWord (c : Char) : Bool :=
  Text.isAsciiLetter c || Text.isAsciiDigit c || c == '_' || c == '\x27'

/-- The text of a lexeme. -/
def text : Lexeme → List Char
  | .blank c => [c]
  | .comment body => '/' :: '/' :: body
  | .word first more => first :: more
  | .mark c _ => [c]
  | .stray c => [c]

/-- The number of characters of a lexeme after its first. -/
def extent : Lexeme → Nat
  | .comment body => body.length + 1
  | .word _ more => more.length
  | _ => 0

/-- The lexeme that starts with `c` when the text goes on with `cs`. -/
def first (c : Char) (cs : List Char) : Lexeme :=
  if Text.isBlank c then .blank c
  else if c = '/' && cs.head? = some '/' then .comment (cs.tail.takeWhile (· ≠ '\n'))
  else if startsWord c then .word c (cs.takeWhile continuesWord)
  else
    match TokenKind.ofMark? c with
    | some kind => .mark c kind
    | none => .stray c

/-- The lexemes of a text whose first `skip` characters belong to an earlier lexeme. -/
def cutFrom : Nat → List Char → List Lexeme
  | _, [] => []
  | skip + 1, _ :: cs => cutFrom skip cs
  | 0, c :: cs => first c cs :: cutFrom (first c cs).extent cs

/-- The lexemes of a text. -/
def cut (cs : List Char) : List Lexeme :=
  cutFrom 0 cs

/-- The token of a lexeme that starts at `p`, if it makes one. -/
def token? (file : String) (p : Position) (lexeme : Lexeme) : Option Token :=
  let span := p.spanTo file (p.afterAll lexeme.text)
  match lexeme with
  | .word first more =>
    let word := String.ofList (first :: more)
    some ⟨.ofWord word, word, span⟩
  | .mark c kind => some ⟨kind, String.ofList [c], span⟩
  | _ => none

/-- The report of a lexeme that starts at `p`, if it is no part of a description. -/
def report? (file : String) (p : Position) : Lexeme → Option Report
  | .stray c => some (.located (.strayChar c) (p.span file))
  | _ => none

end Lexeme

/-- What scanning a text yields: its tokens up to the end of the input, and its stray characters. -/
structure Scanned where
  tokens : List Token
  reports : List Report

namespace Scanned

/-- The tokens and reports of lexemes, the first of which starts at `p`. -/
def ofLexemes (file : String) (p : Position) : List Lexeme → Scanned
  | [] => ⟨[⟨.endOfInput, "", p.spanTo file p⟩], []⟩
  | lexeme :: lexemes =>
    let rest := ofLexemes file (p.afterAll lexeme.text) lexemes
    ⟨(lexeme.token? file p).toList ++ rest.tokens, (lexeme.report? file p).toList ++ rest.reports⟩

end Scanned

/-- The tokens of a text, the end of the input last, or a report for each stray character. -/
def Token.scan (file source : String) : Except (List Report) (List Token) :=
  let scanned := Scanned.ofLexemes file .start (Lexeme.cut source.toList)
  if scanned.reports.isEmpty then .ok scanned.tokens else .error scanned.reports

end TypeDesc
