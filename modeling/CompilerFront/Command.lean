import CompilerFront.Config
import CompilerFront.Text.Basic

set_option autoImplicit false

namespace CompilerFront

structure Command where
  program : Text
  arguments : List Text
  deriving DecidableEq, Repr

namespace Command

def display (command : Command) : Text :=
  Text.joinWith " " (command.program :: command.arguments)

@[simp] theorem display_nil (program : Text) : (Command.mk program []).display = program := by
  simp [display, Text.joinWith, List.intercalate]

def debugFlags : List Text := ["-g"]

def optimizationFlags : List Text := ["-O2"]

def warningFlags : List Text := ["-Wall", "-Wextra", "-pedantic"]

/-- Warnings that only make sense for C++, on top of the general ones. -/
def cppWarningFlags : List Text := ["-Weffc++", "-Wold-style-cast"]

def gtkPackage : Text := "gtk+-2.0"

def gtkmmPackage : Text := "gtkmm-2.4"

def optional (wanted : Bool) (arguments : List Text) : List Text :=
  if wanted then arguments else []

/-- The compiler's arguments up to the package flags: the language, the user's own options, the
mode, debug symbols, optimization and warnings. -/
def compilerFlags (config : Config) : List Text :=
  config.language.flags ++ config.passthrough ++ config.mode.flags ++
    optional config.debugSymbols debugFlags ++ optional config.optimize optimizationFlags ++
    optional config.warnings (warningFlags ++ optional config.language.isCpp cppWarningFlags)

def outputArguments (output : Path) : List Text := ["-o", output.text]

def libraryArguments (library : Text) : List Text := ["-l", library]

/-- The compiler's arguments behind the package flags: the output, the sources, the libraries. -/
def compilerFiles (config : Config) (sources : List Path) : List Text :=
  outputArguments config.destination ++ sources.map (·.text) ++
    config.libraries.flatMap libraryArguments

def compiler (toolchain : Toolchain) (config : Config) (sources : List Path)
    (packageFlags : List Text) : Command :=
  { program := toolchain.compiler config.language
    arguments := compilerFlags config ++ packageFlags ++ compilerFiles config sources }

def lexer (toolchain : Toolchain) (input output : Path) : Command :=
  { program := toolchain.lexerGenerator, arguments := outputArguments output ++ [input.text] }

def packageQuery (toolchain : Toolchain) (package : Text) : Command :=
  { program := toolchain.packageQuery, arguments := ["--cflags", "--libs", package] }

/-- What is started after a successful build, where the mode asks for it: the program itself, or a
tool that runs it. The debugger is told about the program's arguments only if there are any. -/
def followUp? (toolchain : Toolchain) (platform : Platform) (config : Config) : Option Command :=
  let program := (platform.launchPath config.destination).text
  let arguments := config.programArguments
  match config.mode with
  | .execute => some { program, arguments }
  | .debug =>
    some
      { program := toolchain.debugger
        arguments := optional (!arguments.isEmpty) ["--args"] ++ program :: arguments }
  | .memcheck => some { program := toolchain.memoryChecker, arguments := program :: arguments }
  | .link | .compile | .shared | .assembly | .preprocess => none

@[simp] theorem optional_true (arguments : List Text) : optional true arguments = arguments := rfl

@[simp] theorem optional_false (arguments : List Text) : optional false arguments = [] := rfl

/-- Something is started after a build exactly in the interactive modes. -/
theorem followUp?_isSome (toolchain : Toolchain) (platform : Platform) (config : Config) :
    (followUp? toolchain platform config).isSome = config.mode.isInteractive := by
  unfold followUp?
  cases config.mode <;> rfl

end Command

end CompilerFront
