/-
Terminal colors. A colored text stands between an escape sequence that switches
the color on and one that switches it off. Such a sequence is one of many that
control a terminal: after its opening come parameters, then fillers, then one
character that ends it. `stripEscapes` takes every such sequence out again, for
an output that is no terminal.
-/
namespace TypeDesc.Text

/-- The character that opens an escape sequence. -/
def escapeChar : Char := '\x1b'

/-- The escape sequence with the given parameters, of the kind that sets colors. -/
def colorCode (parameters : String) : String :=
  String.ofList [escapeChar, '['] ++ parameters ++ "m"

/-- Whether `c` is a parameter of an escape sequence: a digit or one of `:;<=>?`. -/
def isEscapeParameter (c : Char) : Bool :=
  '0' ≤ c && c ≤ '?'

/-- Whether `c` may stand between the parameters of an escape sequence and its end: a space or an
ASCII mark before the digits. -/
def isEscapeFiller (c : Char) : Bool :=
  ' ' ≤ c && c ≤ '/'

/-- Whether `c` ends an escape sequence: an ASCII letter or a mark among or behind the letters. -/
def isEscapeEnd (c : Char) : Bool :=
  '@' ≤ c && c ≤ '~'

/-- The number of characters of the escape sequence whose text after the escape character is `cs`,
not counting the escape character; zero if no sequence starts here. -/
def escapeLength : List Char → Nat
  | '[' :: cs =>
    let parameters := cs.takeWhile isEscapeParameter
    let afterParameters := cs.dropWhile isEscapeParameter
    let fillers := afterParameters.takeWhile isEscapeFiller
    match afterParameters.dropWhile isEscapeFiller with
    | c :: _ => if isEscapeEnd c then parameters.length + fillers.length + 2 else 0
    | [] => 0
  | _ => 0

/-- Drops `skip` characters, then takes every escape sequence out of what follows. -/
def stripEscapesFrom : Nat → List Char → List Char
  | _, [] => []
  | skip + 1, _ :: cs => stripEscapesFrom skip cs
  | 0, c :: cs =>
    if c = escapeChar && escapeLength cs != 0 then stripEscapesFrom (escapeLength cs) cs
    else c :: stripEscapesFrom 0 cs

/-- `text` without its escape sequences. -/
def stripEscapes (text : String) : String :=
  String.ofList (stripEscapesFrom 0 text.toList)

end TypeDesc.Text
