/-
Command lines that are not understood, and what is said about them. For a name
that is not known, the names like it are offered.
-/
import TypeDesc.Text.Block
import TypeDesc.Text.Quoted

namespace TypeDesc

/-- What is wrong with a value on the command line. -/
inductive BadValue
  | missingFile (text : String)
  | missingPath (text : String)
  | isDirectory (text : String)
  | notInteger (text : String)
deriving DecidableEq, Repr

/-- What is wrong with a command line. -/
inductive Usage
  | missingCommand
  /-- A name that no command has, and commands with a name like it. -/
  | unknownCommand (name : String) (alike : List String)
  /-- A name that no option has, and options with a name like it. -/
  | unknownOption (name : String) (alike : List String)
  | takesNoValue (option : String)
  | needsValue (option : String)
  | missingArgument (name : String)
  /-- A value for a parameter, which is written as it is shown. -/
  | invalid (parameter : String) (reason : BadValue)
  | unexpected (arguments : List String)
deriving DecidableEq, Repr

namespace BadValue

/-- The wording of what is wrong with a value. -/
def message : BadValue → String
  | .missingFile text => "File " ++ Text.quoted text ++ " does not exist."
  | .missingPath text => "Path " ++ Text.quoted text ++ " does not exist."
  | .isDirectory text => "File " ++ Text.quoted text ++ " is a directory."
  | .notInteger text => Text.quoted text ++ " is not a valid integer."

end BadValue

namespace Usage

/-- The names that may have been meant, in alphabetical order. -/
def offer (names : List String) : String :=
  match (names.mergeSort fun a b => a ≤ b).map Text.quoted with
  | [] => ""
  | [name] => " Did you mean " ++ name ++ "?"
  | names => " " ++ Text.parenthesized ("Did you mean one of: " ++ Text.joinWith ", " names ++ "?")

/-- The wording of what is wrong with a command line. -/
def message : Usage → String
  | .missingCommand => "Missing command."
  | .unknownCommand name alike => "No such command " ++ Text.quoted name ++ "." ++ offer alike
  | .unknownOption name alike => "No such option " ++ Text.quoted name ++ "." ++ offer alike
  | .takesNoValue option => "Option " ++ Text.quoted option ++ " does not take a value."
  | .needsValue option => "Option " ++ Text.quoted option ++ " requires an argument."
  | .missingArgument name => "Missing argument '" ++ name ++ "'."
  | .invalid parameter reason => "Invalid value for " ++ parameter ++ ": " ++ reason.message
  | .unexpected arguments =>
    (if arguments.length = 1 then "Got unexpected extra argument "
      else "Got unexpected extra arguments ") ++ Text.parenthesized (Text.joinWith " " arguments)

end Usage

end TypeDesc
