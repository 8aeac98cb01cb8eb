import CompilerFront.Config
import CompilerFront.Options.Usage
import CompilerFront.Options.Parse
import CompilerFront.Options.Basic
import CompilerFront.Text.Basic

set_option autoImplicit false

namespace CompilerFront

/-- What is wrong with options that could be read. -/
inductive TaskError where
  /-- More than one mode, each in the words of the options. -/
  | conflictingModes (names : List Text)
  /-- No operand names an existing file. -/
  | noInputFiles (missing : List Text)
  deriving DecidableEq, Repr

namespace TaskError

def message : TaskError → Text
  | .conflictingModes names => "conflicting options: " ++ Text.joinWith ", " names
  | .noInputFiles [] => "no input files"
  | .noInputFiles missing =>
    "no input files (no such file: " ++ Text.joinWith ", " missing ++ ")"

/-- All that is said about the error, with its emphasis. -/
def report (error : TaskError) : Text :=
  Options.errorReport (UsageError.introduction ++ error.message) programName

end TaskError

namespace Options

/-- The switches that choose a mode, with their names in an error, in the order in which an error
lists them. -/
def modeSwitches : List (Switch × Text × Mode) :=
  [(.compile, "-c/--compile", .compile), (.execute, "-e", .execute),
    (.assembly, "-S/--compile-proper", .assembly), (.debug, "-g/--debug", .debug),
    (.preprocess, "-E/--preprocess", .preprocess), (.memcheck, "--valgrind", .memcheck),
    (.shared, "-s/--shared", .shared)]

def modes (options : Options) : List (Text × Mode) :=
  (modeSwitches.filter fun entry => options.has entry.1).map (·.2)

/-- The mode, unless several are chosen. -/
def mode (options : Options) : Except TaskError Mode :=
  match options.modes with
  | [] => .ok .link
  | [(_, mode)] => .ok mode
  | chosen => .error (.conflictingModes (chosen.map (·.1)))

/-- The language of the sources: the one that a switch asks for, else the one named, else the one
that the sources have in common. -/
def languageFor (options : Options) (sources : List Path) : Language :=
  if options.has .cpp0x || options.has .cpp1x then .cpp11
  else options.language.getD (.ofFiles sources)

/-- The configuration that the options ask for. Operands that name no existing file are left out
of the sources. -/
def configure (options : Options) (exists? : Path → Bool) (platform : Platform)
    (programArguments : List Text) : Except TaskError Config := do
  let mode ← options.mode
  let sources := (options.operands.filter fun operand => exists? ⟨operand⟩).map Path.mk
  let ignored := options.operands.filter fun operand => !exists? ⟨operand⟩
  match sources with
  | [] => throw (.noInputFiles ignored)
  | first :: _ =>
    return {
      mode
      language := options.languageFor sources
      sources
      destination := mode.destination platform options.output first
      optimize := options.has .optimize
      debugSymbols := mode.needsSymbols
      warnings := !options.has .quiet
      colour := !options.has .plainColours
      verbose := options.has .verbose
      level := options.simplify
      passthrough := options.passthrough.flatMap Text.words
      libraries := options.libraries
      gtk := options.has .gtk
      gtkmm := options.has .gtkmm
      programArguments
      ignored }

end Options

inductive Task where
  | build (config : Config)
  | debuggerHelp
  deriving DecidableEq, Repr

/-- Why a command line gives no task. -/
inductive Refusal where
  | stop (stop : Stop)
  | task (error : TaskError)
  deriving DecidableEq, Repr

/-- The task of a command line, whose first argument is the name of this program, among the files
that exist. -/
def Task.ofArguments (exists? : Path → Bool) (platform : Platform) (arguments : List Text) :
    Except Refusal Task :=
  let (own, programArguments) := Options.splitArguments arguments
  match Options.parse (own.drop 1) with
  | .error stop => .error (.stop stop)
  | .ok options =>
    if options.has .debuggerHelp then .ok .debuggerHelp
    else
      match options.configure exists? platform programArguments with
      | .error error => .error (.task error)
      | .ok config => .ok (.build config)

end CompilerFront
