import CompilerFront.Command
import CompilerFront.Formatter
import CompilerFront.Session

set_option autoImplicit false

namespace CompilerFront

structure Build where
  config : Config
  toolchain : Toolchain
  platform : Platform
  formatter : Formatter
  deriving DecidableEq, Repr

inductive BuildError where
  | notStarted (program reason : Text)
  /-- The lexer generator did not succeed on an input; what it printed is kept. -/
  | lexer (program : Text) (input : Path) (outcome : Outcome) (output : Text)
  | compilation (program : Text) (outcome : Outcome)
  deriving DecidableEq, Repr

namespace BuildError

def notStartedText (program reason : Text) : Text :=
  "failed to execute " ++ program ++ ": " ++ reason

/-- What a child printed, at the end of a message; nothing if it printed nothing. -/
def printedBelow (output : Text) : Text := if output.isEmpty then [] else ":\n" ++ output

def message : BuildError → Text
  | .notStarted program reason => notStartedText program reason
  | .lexer program input outcome output =>
    program ++ " " ++ outcome.describe ++ " on " ++ input.text ++ printedBelow output
  | .compilation program outcome => "compilation failed: " ++ program ++ " " ++ outcome.describe

end BuildError

namespace Build

def say (build : Build) (severity : Severity) (message : Text) : Session Unit :=
  Session.notify (.message severity (build.formatter.presentMessage severity message))

def report (build : Build) (error : BuildError) : Session Unit := build.say .error error.message

/-- What a child printed, first on its output and then on its error stream, without blanks around
either; a stream with nothing but blanks is left out. -/
def printed (build : Build) (stdout stderr : List UInt8) : Text :=
  Text.joinWith "\n"
    (([stdout, stderr].map fun bytes => Text.trim (build.platform.decode bytes)).filter
      (!·.isEmpty))

@[simp] theorem printed_nil (build : Build) : build.printed [] [] = [] := by
  simp [printed, Text.joinWith, List.intercalate]

/-- The file that the lexer generator writes for an input. -/
def generatedFile (input : Path) : Path := input.withExtension "c"

/-- The lexer inputs among some sources, each place once, in order. -/
def lexerInputs (sources : List Path) : List Path :=
  Path.distinct (sources.filter (·.isLexerInput))

/-- Takes an input out of the sources and adds what was generated from it, unless that is among
them. -/
def replaceInput (sources : List Path) (input generated : Path) : List Path :=
  let kept := sources.filter fun source => !source.same input
  if kept.any fun source => source.same generated then kept else kept ++ [generated]

/-- What becomes of an input, by the reply to running the lexer generator on it. -/
def generated (build : Build) (input : Path) : Reply → Except BuildError Unit
  | .notStarted reason => .error (.notStarted build.toolchain.lexerGenerator reason)
  | .ended .success _ _ => .ok ()
  | .ended outcome stdout stderr =>
    .error (.lexer build.toolchain.lexerGenerator input outcome (build.printed stdout stderr))

/-- Runs the lexer generator on some inputs, one after the other, and replaces them among the
sources. The first failure ends the build. -/
def generateAll (build : Build) (sources : List Path) :
    List Path → Session (Except BuildError (List Path))
  | [] => return .ok sources
  | input :: inputs => do
    let command := Command.lexer build.toolchain input (generatedFile input)
    match build.generated input (← Session.request (.capture command)) with
    | .error error => return .error error
    | .ok () => build.generateAll (replaceInput sources input (generatedFile input)) inputs

/-- The sources for the compiler: those of the configuration with every lexer input replaced. -/
def replaceLexerInputs (build : Build) : Session (Except BuildError (List Path)) :=
  build.generateAll build.config.sources (lexerInputs build.config.sources)

theorem isLexerInput_of_mem_lexerInputs {path : Path} {sources : List Path}
    (inside : path ∈ lexerInputs sources) : path ∈ sources ∧ path.isLexerInput = true :=
  List.mem_filter.mp (Path.mem_of_mem_distinct inside)

@[simp] theorem generateAll_nil (build : Build) (sources : List Path) :
    build.generateAll sources [] = .done (.ok sources) := rfl

theorem generateAll_cons (build : Build) (sources : List Path) (input : Path)
    (inputs : List Path) :
    build.generateAll sources (input :: inputs) =
      .ask (.capture (Command.lexer build.toolchain input (generatedFile input))) fun reply =>
        match build.generated input reply with
        | .error error => .done (.error error)
        | .ok () => build.generateAll (replaceInput sources input (generatedFile input)) inputs :=
  rfl

theorem generated_eq_ok_iff {build : Build} {input : Path} {reply : Reply} :
    build.generated input reply = .ok () ↔
      ∃ stdout stderr, reply = .ended .success stdout stderr := by
  cases reply with
  | notStarted reason => simp [generated]
  | ended outcome stdout stderr => cases outcome <;> simp [generated]

/-- The packages that a configuration asks for, in the order in which they are queried. -/
def packages (config : Config) : List Text :=
  (if config.gtk then [Command.gtkPackage] else []) ++
    if config.gtkmm then [Command.gtkmmPackage] else []

/-- The flags in the reply to a query: the words on the output of a query that succeeded. -/
def flagsOfReply (platform : Platform) : Reply → List Text
  | .ended .success stdout _ => Text.words (platform.decode stdout)
  | _ => []

def askPackage (build : Build) (package : Text) : Session (List Text) := do
  let reply ← Session.request (.capture (.packageQuery build.toolchain package))
  return flagsOfReply build.platform reply

def askPackages (build : Build) : List Text → Session (List Text)
  | [] => return []
  | package :: rest => do
    let flags ← build.askPackage package
    return flags ++ (← build.askPackages rest)

def flagsOfPackages (build : Build) : Session (List Text) :=
  build.askPackages (packages build.config)

theorem flagsOfReply_of_not_success (platform : Platform) {outcome : Outcome}
    (stdout stderr : List UInt8) (failed : outcome ≠ .success) :
    flagsOfReply platform (.ended outcome stdout stderr) = [] := by
  cases outcome <;> simp_all [flagsOfReply]

def warnIgnored (build : Build) : List Text → Session Unit
  | [] => return
  | operand :: rest => do
    build.say .warning ("ignoring '" ++ operand ++ "': no such file")
    build.warnIgnored rest

/-- Shows what the compiler printed, if it printed anything. -/
def showPrinted (build : Build) (stdout stderr : List UInt8) : Session Unit :=
  let text := build.printed stdout stderr
  if text.isEmpty then pure ()
  else
    Session.notify
      (.output text (build.formatter.presentOutput build.config.colour build.config.level text))

/-- Runs the compiler and shows what it printed, whether it succeeds or not. -/
def compile (build : Build) (command : Command) : Session (Except BuildError Unit) := do
  match ← Session.request (.capture command) with
  | .notStarted reason => return .error (.notStarted command.program reason)
  | .ended outcome stdout stderr =>
    build.showPrinted stdout stderr
    return if outcome.succeeded then .ok () else .error (.compilation command.program outcome)

def announce (build : Build) (command : Command) : Session Unit :=
  if build.config.verbose then build.say .info command.display else pure ()

/-- How the end of what was started after the build is told. -/
def tellEnd (build : Build) (program : Text) : Reply → Session Unit
  | .notStarted reason => build.say .error (BuildError.notStartedText program reason)
  | .ended outcome _ _ => build.say outcome.severity (program ++ " " ++ outcome.describe)

/-- Starts what the mode asks for after a build. However that ends, the build has succeeded. -/
def followUp (build : Build) : Session Unit :=
  match Command.followUp? build.toolchain build.platform build.config with
  | none => pure ()
  | some command => do
    build.tellEnd command.program (← Session.request (.interactive command))

/-- Runs the compiler on some sources with the flags of the packages, and what follows it. -/
def finish (build : Build) (sources : List Path) : Session (Except BuildError Unit) := do
  let flags ← build.flagsOfPackages
  let command := Command.compiler build.toolchain build.config sources flags
  build.announce command
  match ← build.compile command with
  | .error error => return .error error
  | .ok () =>
    build.say .info ("built " ++ build.config.destination.text)
    build.followUp
    return .ok ()

def run (build : Build) : Session (Except BuildError Unit) := do
  build.warnIgnored build.config.ignored
  match ← build.replaceLexerInputs with
  | .error error => return .error error
  | .ok sources => build.finish sources

/-- The whole build, with a message for the error that ends it. -/
def runAndReport (build : Build) : Session (Except BuildError Unit) := do
  match ← build.run with
  | .error error =>
    build.report error
    return .error error
  | .ok () => return .ok ()

@[simp] theorem warnIgnored_nil (build : Build) : build.warnIgnored [] = .done () := rfl

end Build

end CompilerFront
