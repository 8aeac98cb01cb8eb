import CompilerFront.Build
import CompilerFront.Task

set_option autoImplicit false

namespace CompilerFront

/-- What the program finds around it. -/
structure Surroundings where
  exists? : Path → Bool
  /-- The variables of the environment. -/
  environment : Text → Option Text
  /-- Whether the standard error stream is a terminal. -/
  terminal : Bool

/-- How the program ends: its exit status and everything on its two output streams, with what
interactive children print there. -/
structure Ending where
  status : Nat
  stdout : List UInt8
  stderr : List UInt8
  deriving DecidableEq, Repr

namespace Program

def line (text : Text) : List UInt8 := Text.Utf8.encode (text ++ ['\n'])

/-- What appears on the error stream for a notice. Output that is shown as nothing leaves no
line. -/
def shown : Notice → List UInt8
  | .message _ text => line text
  | .output _ text => if text.isEmpty then [] else line text

/-- What appears on the output stream in the course of a build. -/
def stdoutOf : List Event → List UInt8
  | [] => []
  | .asked (.interactive _) (.ended _ stdout _) :: events => stdout ++ stdoutOf events
  | _ :: events => stdoutOf events

/-- What appears on the error stream in the course of a build. -/
def stderrOf : List Event → List UInt8
  | [] => []
  | .told notice :: events => shown notice ++ stderrOf events
  | .asked (.interactive _) (.ended _ _ stderr) :: events => stderr ++ stderrOf events
  | .asked _ _ :: events => stderrOf events

def buildOf (surroundings : Surroundings) (config : Config) : Build :=
  { config
    toolchain := .ofEnvironment surroundings.environment
    platform := .host
    formatter :=
      .select config.colour surroundings.terminal (surroundings.environment "NO_COLOR") }

/-- What arrives on a stream of a text with emphasis. -/
def written (text : Text) : List UInt8 := Text.Utf8.encode (Terminal.visible text)

def success (text : Text) : Ending := ⟨0, written text, []⟩

def failure (text : Text) : Ending := ⟨1, [], written text⟩

/-- The end of a command line that gives no task. -/
def refuse (arguments : List Text) : Refusal → Ending
  | .stop .help => success (Options.help (Options.calledName arguments))
  | .stop .version => success Options.versionText
  | .stop (.usage error) =>
    failure (Options.errorReport error.message (Options.calledName arguments))
  | .task error => failure error.report

/-- What becomes of some arguments, of which the first is the program's name: a build, or an end
without one. -/
def plan (surroundings : Surroundings) (arguments : List Text) : Except Ending Build :=
  match Task.ofArguments surroundings.exists? .host arguments with
  | .ok .debuggerHelp => .error (success (Options.debuggerHelp ++ ['\n']))
  | .ok (.build config) => .ok (buildOf surroundings config)
  | .error refusal => .error (refuse arguments refusal)

def statusOf (result : Except BuildError Unit) : Nat := if result.isOk then 0 else 1

/-- The program, called with some arguments, as a session. Its value is the exit status with what is
still to be printed: all there is to print without a build, nothing behind one. -/
def session (surroundings : Surroundings) (arguments : List Text) : Session Ending :=
  match plan surroundings arguments with
  | .error ending => return ending
  | .ok build => do
    let result ← build.runAndReport
    return { status := statusOf result, stdout := [], stderr := [] }

/-- The program, called with some arguments on a machine. -/
def run (machine : Machine) (surroundings : Surroundings) (arguments : List Text) : Ending :=
  let (events, ending) := (session surroundings arguments).play machine []
  { status := ending.status
    stdout := stdoutOf events ++ ending.stdout
    stderr := stderrOf events ++ ending.stderr }

/-- The operands whose existence decides about a build. -/
def operands (arguments : List Text) : List Text :=
  match Options.parse ((Options.splitArguments arguments).1.drop 1) with
  | .ok options => if options.has .debuggerHelp then [] else options.operands
  | .error _ => []

end Program

end CompilerFront
