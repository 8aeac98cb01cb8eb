import CompilerFront.Diagnostic
import CompilerFront.Options.Basic
import CompilerFront.Path
import CompilerFront.Terminal
import CompilerFront.Text.Basic

set_option autoImplicit false

namespace CompilerFront

inductive UsageError where
  /-- No option has the name. -/
  | unknown (argument : Text)
  | missingValue (option : ValueOption)
  /-- The value is not among those the option takes. -/
  | invalidValue (value : Text) (option : ValueOption)
  /-- An option that may be given once is given again. -/
  | repeated (option : OptionKey)
  /-- A value is given to an option that takes none. -/
  | unexpectedValue (value : Text) (option : OptionKey)
  deriving DecidableEq, Repr

namespace UsageError

/-- An argument or a value that is at fault, in quotes. -/
def faulty (text : Text) : Text := "'" ++ Emphasis.invalid.mark text ++ "'"

/-- An option that a value does not suit, in quotes. -/
def concerned (key : OptionKey) : Text := "'" ++ Emphasis.literal.mark key.display ++ "'"

def description : UsageError → Text
  | .unknown argument => "unexpected argument " ++ faulty argument ++ " found"
  | .missingValue option =>
    "a value is required for " ++ faulty (OptionKey.display (.value option)) ++
      " but none was supplied"
  | .invalidValue value option =>
    "invalid value " ++ faulty value ++ " for " ++ concerned (.value option)
  | .repeated option =>
    "the argument " ++ faulty option.display ++ " cannot be used multiple times"
  | .unexpectedValue value option =>
    "unexpected value " ++ faulty value ++ " for " ++ concerned option ++
      " found; no more were expected"

def introduction : Text := Emphasis.error.mark "error:" ++ " "

def message (error : UsageError) : Text := introduction ++ error.description

end UsageError

namespace Options

def summary : Text := "Friendly front-end for the C/C++/assembly toolchain"

def versionText : Text := programName ++ " 0.1.0\n"

def usage (name : Text) : Text :=
  Emphasis.heading.mark "Usage:" ++ " " ++ Emphasis.literal.mark name ++ " [OPTIONS] [FILE]..."

/-- Where to find the help, at the end of every error. -/
def helpHint : Text :=
  "For more information, try '" ++ Emphasis.literal.mark "--help" ++ "'."

/-- The left column of an option: the short name or room for one, the long name, and the value. -/
def helpColumn (key : OptionKey) : Text :=
  let form := key.form
  let short : Text :=
    match form.short with
    | some c => ['-', c]
    | none => "  "
  let long : Text :=
    match form.long with
    | some name => (if form.short.isSome then ", --" else "  --" : Text) ++ name
    | none => []
  let value : Text :=
    match form.valueName with
    | some word => " <" ++ word ++ ">"
    | none => if key = .simplify then "..." else []
  "  " ++ short ++ long ++ value

/-- The width of the left column, two more than the widest option. -/
def helpColumnWidth : Nat :=
  (OptionKey.all.map fun key => (helpColumn key).length).foldl max 0 + 2

def helpLine (key : OptionKey) : Text :=
  let column := helpColumn key
  column ++ List.replicate (helpColumnWidth - column.length) ' ' ++ key.form.purpose

/-- The lines of the help in front of the options. -/
def helpHead (name : Text) : List Text :=
  [summary, [], usage name, [], Emphasis.heading.mark "Arguments:",
    "  [FILE]...  Source files to build", [], Emphasis.heading.mark "Options:"]

def help (name : Text) : Text :=
  Text.joinWith "\n" (helpHead name ++ OptionKey.all.map helpLine) ++ ['\n']

/-- The name under which this program was called: the file name of the first argument, if it has
one. -/
def calledName (arguments : List Text) : Text :=
  (arguments.head?.bind fun first => (Path.mk first).fileName?).getD programName

/-- All that is said about an error, with its emphasis: the message, how the program is called, and
where to find help. -/
def errorReport (message name : Text) : Text :=
  message ++ "\n\n" ++ usage name ++ "\n\n" ++ helpHint ++ "\n"

def debuggerHelp : Text := Text.joinWith "\n"
  ["Quick gdb reference:",
    "  run [ARGS]        start the program, optionally with new arguments",
    "  break LOCATION    set a breakpoint (function, FILE:LINE or *ADDRESS)",
    "  delete [N]        delete breakpoint N, or all breakpoints",
    "  next / step       step over / into the next source line",
    "  continue          resume until the next breakpoint",
    "  finish            run until the current function returns",
    "  backtrace         show the call stack",
    "  frame N           select stack frame N",
    "  print EXPR        evaluate and print an expression",
    "  display EXPR      print an expression every time the program stops",
    "  watch EXPR        stop when the value of an expression changes",
    "  info locals       show local variables of the selected frame",
    "  list [LOCATION]   show source around the current line or LOCATION",
    "  quit              leave gdb"]

example : helpColumnWidth = 25 := by decide +kernel

end Options

end CompilerFront
