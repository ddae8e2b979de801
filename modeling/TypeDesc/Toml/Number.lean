/-
Numbers, dates and times of TOML. A single underscore may stand between two
digits of a number.
-/
import TypeDesc.Text.Decimal
import TypeDesc.Toml.Text

namespace TypeDesc.Toml

/-! ## Digits -/

/-- The digits that follow a digit, and the characters after them. -/
def digitRun (isDigit : Char → Bool) : List Char → List Char × List Char
  | [] => ([], [])
  | c :: cs =>
    if isDigit c then
      let (digits, rest) := digitRun isDigit cs
      (c :: digits, rest)
    else if c = '_' then
      match cs with
      | [] => ([], [c])
      | d :: ds =>
        if isDigit d then
          let (digits, rest) := digitRun isDigit ds
          (c :: d :: digits, rest)
        else ([], c :: d :: ds)
    else ([], c :: cs)

/-- A run of at least one digit. -/
def readDigits (isDigit : Char → Bool) : List Char → Option (List Char × List Char)
  | [] => none
  | c :: cs =>
    if isDigit c then
      let (digits, rest) := digitRun isDigit cs
      some (c :: digits, rest)
    else none

/-- The value of digits in a base. -/
def valueOf (base : Nat) (digits : List Char) : Nat :=
  (digits.filterMap hexDigit?).foldl (fun value digit => base * value + digit) 0

/-- Whether `c` is a digit of the base. -/
def isDigitOf (base : Nat) (c : Char) : Bool :=
  match hexDigit? c with
  | some digit => digit < base
  | none => false

/-! ## Numbers -/

/-- The bases that a letter after a zero announces. -/
def bases : List (Char × Nat) :=
  [('x', 16), ('b', 2), ('o', 8)]

/-- An integer in a base that is announced. -/
def readAnnounced : List Char → Option (Value × List Char)
  | '0' :: c :: cs => do
    let base ← bases.lookup c
    let (digits, rest) ← readDigits (isDigitOf base) cs
    some (.integer (valueOf base digits), rest)
  | _ => none

/-- A sign that may stand before a number. -/
def readSign : List Char → List Char × List Char
  | [] => ([], [])
  | c :: cs => if c = '+' || c = '-' then ([c], cs) else ([], c :: cs)

/-- The digits before the point; a zero stands alone. -/
def readWhole : List Char → Option (List Char × List Char)
  | [] => none
  | c :: cs => if c = '0' then some ([c], cs) else readDigits (isDigitOf 10) (c :: cs)

/-- A point and digits, if they come next. -/
def readFraction : List Char → List Char × List Char
  | [] => ([], [])
  | c :: cs =>
    match if c = '.' then readDigits (isDigitOf 10) cs else none with
    | some (digits, rest) => (c :: digits, rest)
    | none => ([], c :: cs)

/-- An exponent, if it comes next. -/
def readExponent : List Char → List Char × List Char
  | [] => ([], [])
  | c :: cs =>
    let (sign, after) := readSign cs
    match if c = 'e' || c = 'E' then readDigits (isDigitOf 10) after else none with
    | some (digits, rest) => (c :: sign ++ digits, rest)
    | none => ([], c :: cs)

/-- A number in base ten as it is written, in its parts. All but the whole may be empty. -/
structure Plain where
  sign : List Char
  whole : List Char
  fraction : List Char
  exponent : List Char

/-- A number in base ten. -/
def readPlain (cs : List Char) : Option (Plain × List Char) := do
  let (sign, cs) := readSign cs
  let (whole, cs) ← readWhole cs
  let (fraction, cs) := readFraction cs
  let (exponent, rest) := readExponent cs
  some (⟨sign, whole, fraction, exponent⟩, rest)

/-- The power of ten that an exponent writes. -/
def powerOf (exponent : List Char) : Int :=
  let (sign, digits) := readSign (exponent.drop 1)
  let value : Int := valueOf 10 digits
  if sign = ['-'] then -value else value

/-- The value of a number in base ten. -/
def Plain.value (n : Plain) : Except Defect Value :=
  let negative := n.sign = ['-']
  if n.fraction = [] && n.exponent = [] then
    let value : Int := valueOf 10 n.whole
    if Text.maxIntegerDigits < (n.whole.filter (· ≠ '_')).length then .error .hugeInteger
    else .ok (.integer (if negative then -value else value))
  else
    let places := (n.fraction.filter (isDigitOf 10)).length
    let power := powerOf n.exponent - places
    .ok (.real (.ofDecimal negative (valueOf 10 (n.whole ++ n.fraction)) power))

/-- An infinity, or what is no number. -/
def readSpecial (cs : List Char) : Option (Value × List Char) :=
  let (sign, after) := readSign cs
  if after.take 3 = ['i', 'n', 'f'] then some (.real (.infinite (sign = ['-'])), after.drop 3)
  else if after.take 3 = ['n', 'a', 'n'] then some (.real .undefined, after.drop 3)
  else none

/-! ## Dates and times -/

/-- A number of two digits within bounds. -/
def readPair (low high : Nat) : List Char → Option (Nat × List Char)
  | c :: d :: cs =>
    let value := valueOf 10 [c, d]
    if isDigitOf 10 c && isDigitOf 10 d && low ≤ value && value ≤ high then some (value, cs)
    else none
  | _ => none

/-- The parts of a second, if they come next. Digits past the millionths do not count. -/
def readMicro (cs : List Char) : Nat × List Char :=
  match cs with
  | '.' :: after =>
    let digits := after.takeWhile (isDigitOf 10)
    if digits = [] then (0, cs)
    else (valueOf 10 ((digits ++ List.replicate 6 '0').take 6), after.drop digits.length)
  | _ => (0, cs)

/-- A time of day. -/
def readTime (cs : List Char) : Option (Time × List Char) := do
  let (hour, cs) ← readPair 0 23 cs
  let cs ← expect ':' cs
  let (minute, cs) ← readPair 0 59 cs
  let cs ← expect ':' cs
  let (second, cs) ← readPair 0 59 cs
  let (micro, rest) := readMicro cs
  some (⟨hour, minute, second, micro⟩, rest)

/-- The distance from universal time in minutes, if it comes next. -/
def readAhead : List Char → Option Int × List Char
  | [] => (none, [])
  | c :: cs =>
    if c = 'Z' || c = 'z' then (some 0, cs)
    else if c = '+' || c = '-' then
      let distance := do
        let (hours, cs) ← readPair 0 23 cs
        let cs ← expect ':' cs
        let (minutes, rest) ← readPair 0 59 cs
        some ((60 * hours + minutes : Nat), rest)
      match distance with
      | some (minutes, rest) => (some (if c = '-' then -(minutes : Int) else minutes), rest)
      | none => (none, c :: cs)
    else (none, c :: cs)

/-- The days of a month. -/
def daysOf (year month : Nat) : Nat :=
  if month = 2 then
    if year % 4 = 0 && (year % 100 ≠ 0 || year % 400 = 0) then 29 else 28
  else if month ∈ [4, 6, 9, 11] then 30
  else 31

/-- A date that the calendar has. -/
def readDate (cs : List Char) : Option (Date × List Char) := do
  let (century, cs) ← readPair 0 99 cs
  let (yearOfCentury, cs) ← readPair 0 99 cs
  let cs ← expect '-' cs
  let (month, cs) ← readPair 1 12 cs
  let cs ← expect '-' cs
  let (day, rest) ← readPair 1 31 cs
  let year := 100 * century + yearOfCentury
  if 0 < year && day ≤ daysOf year month then some (⟨year, month, day⟩, rest) else none

/-- A time behind a date, if it comes next. -/
def readTimeOfDate : List Char → Option (Time × List Char)
  | c :: cs => if c = 'T' || c = 't' || c = ' ' then readTime cs else none
  | [] => none

/-- A date, or a date and a time. -/
def readDateAndTime (cs : List Char) : Option (Moment × List Char) := do
  let (date, cs) ← readDate cs
  match readTimeOfDate cs with
  | some (time, cs) =>
    let (ahead, rest) := readAhead cs
    some (.both date time ahead, rest)
  | none => some (.date date, cs)

/-- A date, a time, or both. -/
def readMoment (cs : List Char) : Option (Value × List Char) :=
  match readDateAndTime cs with
  | some (moment, rest) => some (.moment moment, rest)
  | none => (readTime cs).map fun (time, rest) => (.moment (.time time), rest)

/-- A number, a date or a time. -/
def readNumber (cs : List Char) : Except Defect (Value × List Char) :=
  match (readMoment cs).orElse fun _ => readAnnounced cs with
  | some found => .ok found
  | none =>
    match readPlain cs with
    | some (n, rest) => n.value.map fun value => (value, rest)
    | none => Defect.orMalformed (readSpecial cs)

end TypeDesc.Toml
