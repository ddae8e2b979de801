/-
The options and arguments of a command line. An option starts with a hyphen, and
may bring a value: behind an equals sign, directly behind its single letter, or
as the next item. Two hyphens alone end the options.
-/
import TypeDesc.Command.Usage
import TypeDesc.Text.Blank
import TypeDesc.Text.Decimal
import TypeDesc.Text.Similarity

namespace TypeDesc

/-- An option that a command knows. -/
structure OptionForm where
  /-- Its name, with two hyphens. -/
  name : String
  /-- Its single letter, if it has one. -/
  letter : Option Char := none
  takesValue : Bool := false

/-- The options, in order and each by its name, and the arguments of a command line. -/
structure Arguments where
  options : List (String × String) := []
  values : List String := []

/-- What an item of a command line is. -/
inductive Item
  | argument
  | option (name value : String)
  /-- An option, as it is typed, whose value is the next item. -/
  | awaiting (name typed : String)
  | wrong (usage : Usage)

namespace Arguments

/-- The option that a single hyphen and a letter start. -/
def ofLetter (forms : List OptionForm) (letter : Char) (rest : List Char) : Item :=
  let typed := String.ofList ['-', letter]
  match forms.find? fun form => form.letter == some letter with
  | none => .wrong (.unknownOption typed [])
  | some form =>
    if form.takesValue then
      if rest.isEmpty then .awaiting form.name typed else .option form.name (String.ofList rest)
    else .option form.name ""

/-- The option of a form, with the value behind its equals sign, if there is one. -/
def ofForm (form : OptionForm) (value? : Option String) : Item :=
  match form.takesValue, value? with
  | true, some value => .option form.name value
  | true, none => .awaiting form.name form.name
  | false, some _ => .wrong (.takesNoValue form.name)
  | false, none => .option form.name ""

/-- The greatest number of names that are offered for one that is not known. -/
def maxOffers : Nat := 3

/-- A long option that is not known. -/
def unknown (forms : List OptionForm) (typed : String) : Item :=
  .wrong (.unknownOption typed (Text.closest maxOffers typed (forms.map (·.name))))

/-- What an item is, given the options that are known. -/
def classify (forms : List OptionForm) (item : String) : Item :=
  match item.toList with
  | '-' :: c :: cs =>
    let cs := c :: cs
    let typed := String.ofList ('-' :: cs.takeWhile (· ≠ '='))
    let value? := (cs.dropWhile (· ≠ '=')).tail?.map String.ofList
    match forms.find? fun form => form.name == typed with
    | some form => ofForm form value?
    | none =>
      match cs with
      | letter :: rest =>
        if letter = '-' then unknown forms typed else ofLetter forms letter rest
      | [] => .argument
  | _ => .argument

/-- The options and arguments of a command line. Options may stand among the arguments, unless the
first argument ends them. -/
def scan (forms : List OptionForm) (among : Bool) : List String → Except Usage Arguments
  | [] => .ok {}
  | item :: items =>
    if item = "--" then .ok { values := items }
    else
      match classify forms item with
      | .wrong usage => .error usage
      | .argument =>
        if among then do
          let rest ← scan forms among items
          .ok { rest with values := item :: rest.values }
        else .ok { values := item :: items }
      | .option name value => do
        let rest ← scan forms among items
        .ok { rest with options := (name, value) :: rest.options }
      | .awaiting name typed =>
        match items with
        | [] => .error (.needsValue typed)
        | value :: items => do
          let rest ← scan forms among items
          .ok { rest with options := (name, value) :: rest.options }

/-- Whether an option is given. -/
def has (a : Arguments) (name : String) : Bool :=
  a.options.any (·.1 == name)

/-- The value of an option; the last one that is given counts. -/
def value? (a : Arguments) (name : String) : Option String :=
  a.options.reverse.lookup name

/-- Checks the options in the order in which they are first given. -/
def checkOptions {ε : Type} (a : Arguments) (check : String → String → Except ε Unit) :
    List (String × String) → Except ε Unit
  | [] => .ok ()
  | (name, value) :: options => do
    check name ((a.value? name).getD value)
    checkOptions a check options

end Arguments

/-! ## Integers -/

/-- Whether `c` is a blank that may stand around an integer. -/
def isIntegerBlank (c : Char) : Bool :=
  Text.isBlank c && !(0x1c ≤ c.toNat && c.toNat ≤ 0x1f)

/-- The value of digits of any script, with single underscores between them. -/
def digitsValue? (value : Nat) : List Char → Option Nat
  | [] => some value
  | c :: cs =>
    match Text.decimalValue? c with
    | some digit => digitsValue? (10 * value + digit) cs
    | none =>
      match cs with
      | [] => none
      | d :: ds =>
        if c = '_' then
          match Text.decimalValue? d with
          | some digit => digitsValue? (10 * value + digit) ds
          | none => none
        else none

/-- The value of at least one digit, and of no more than an integer may have. -/
def natural? : List Char → Option Nat
  | [] => none
  | c :: cs =>
    if Text.maxIntegerDigits < ((c :: cs).filter (· ≠ '_')).length then none
    else (Text.decimalValue? c).bind fun digit => digitsValue? digit cs

/-- The integer that a text writes. -/
def integer? (text : String) : Option Int :=
  let cs := (text.toList.dropWhile isIntegerBlank).reverse.dropWhile isIntegerBlank
  match cs.reverse with
  | '-' :: digits => (natural? digits).map fun n => -(n : Int)
  | '+' :: digits => (natural? digits).map fun n => (n : Int)
  | digits => (natural? digits).map fun n => (n : Int)

end TypeDesc
