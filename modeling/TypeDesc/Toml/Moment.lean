/-
Dates and times of TOML, alone or together. A date with a time may say how far
its clock is from universal time.
-/
import TypeDesc.Text.Block

namespace TypeDesc.Toml

/-- A day of the calendar. -/
structure Date where
  year : Nat
  month : Nat
  day : Nat
deriving DecidableEq, Repr

/-- A time of the day, to a millionth of a second. -/
structure Time where
  hour : Nat
  minute : Nat
  second : Nat
  micro : Nat
deriving DecidableEq, Repr

/-- A date, a time, or both. -/
inductive Moment
  | date (date : Date)
  | time (time : Time)
  /-- A date and a time, and how many minutes the clock is ahead of universal time, if that is
  known. -/
  | both (date : Date) (time : Time) (ahead : Option Int)
deriving DecidableEq, Repr

/-- `n` in decimal digits, at least `count` of them. -/
def padded (count n : Nat) : String :=
  let digits := Nat.toDigits 10 n
  String.ofList (List.replicate (count - digits.length) '0' ++ digits)

/-- A date as it is written. -/
def Date.text (d : Date) : String :=
  padded 4 d.year ++ "-" ++ padded 2 d.month ++ "-" ++ padded 2 d.day

/-- A time as it is written. Parts of a second are left out if there are none. -/
def Time.text (t : Time) : String :=
  padded 2 t.hour ++ ":" ++ padded 2 t.minute ++ ":" ++ padded 2 t.second ++
    (if t.micro = 0 then "" else "." ++ padded 6 t.micro)

/-- The numbers of a time that are shown inside an array or a table: seconds and parts of them only
if they matter. -/
def Time.parts (t : Time) : List Nat :=
  if t.micro ≠ 0 then [t.hour, t.minute, t.second, t.micro]
  else if t.second ≠ 0 then [t.hour, t.minute, t.second]
  else [t.hour, t.minute]

namespace Moment

/-- The distance of a clock from universal time as it is written. -/
def aheadText (ahead : Int) : String :=
  (if ahead < 0 then "-" else "+") ++ padded 2 (ahead.natAbs / 60) ++ ":" ++
    padded 2 (ahead.natAbs % 60)

/-- A moment as it is shown in a message. -/
def text : Moment → String
  | .date d => d.text
  | .time t => t.text
  | .both d t ahead => d.text ++ " " ++ t.text ++ (ahead.map aheadText).getD ""

/-- The distance of a clock from universal time as it is shown inside an array or a table: in
seconds, which are counted from the day before if the clock is behind. -/
def aheadShown (ahead : Int) : String :=
  if ahead = 0 then "tzinfo=datetime.timezone.utc"
  else
    let seconds := "seconds=" ++ toString (Int.emod (60 * ahead) 86400)
    "tzinfo=datetime.timezone(datetime.timedelta(" ++
      (if ahead < 0 then "days=-1, " ++ seconds else seconds) ++ "))"

/-- A moment as it is shown inside an array or a table. -/
def shown : Moment → String
  | .date d => "datetime.date" ++ shownParts [d.year, d.month, d.day] []
  | .time t => "datetime.time" ++ shownParts t.parts []
  | .both d t ahead =>
    "datetime.datetime" ++
      shownParts ([d.year, d.month, d.day] ++ t.parts) (ahead.map aheadShown).toList
where
  /-- Numbers and texts between parentheses. -/
  shownParts (numbers : List Nat) (texts : List String) : String :=
    Text.parenthesized (Text.commaSeparated (numbers.map toString ++ texts))

end Moment

end TypeDesc.Toml
