import CompilerFront.Language
import CompilerFront.Path
import CompilerFront.Platform

set_option autoImplicit false

namespace CompilerFront

inductive Mode where
  /-- Link a program and stop. -/
  | link
  | compile
  /-- Link a program and run it. -/
  | execute
  | shared
  /-- Stop at assembly code. -/
  | assembly
  | preprocess
  /-- Link a program and run it under the debugger. -/
  | debug
  /-- Link a program and run it under the memory checker. -/
  | memcheck
  deriving DecidableEq, Repr

namespace Mode

/-- The flags that make the compiler stop where the mode says. -/
def flags : Mode → List Text
  | .compile => ["-c"]
  | .assembly => ["-S"]
  | .preprocess => ["-E"]
  | .shared => ["-fPIC", "-shared"]
  | .link | .execute | .debug | .memcheck => []

def needsSymbols (mode : Mode) : Bool := mode = .debug || mode = .memcheck

def isInteractive (mode : Mode) : Bool := mode = .execute || mode = .debug || mode = .memcheck

/-- The extension of what a mode makes, empty for a program on a platform without one. -/
def extension (mode : Mode) (platform : Platform) : Text :=
  match mode with
  | .compile => "o"
  | .assembly => "s"
  | .preprocess => "ii"
  | .shared => "so"
  | .link | .execute | .debug | .memcheck => platform.programSuffix?.getD []

/-- Where the result goes: to the path asked for, or next to the first source under the extension
of the mode. -/
def destination (mode : Mode) (platform : Platform) (requested : Option Path) (source : Path) :
    Path :=
  requested.getD (source.withExtension (mode.extension platform))

@[simp] theorem destination_none (mode : Mode) (platform : Platform) (source : Path) :
    mode.destination platform none source =
      source.withExtension (mode.extension platform) := rfl

end Mode

structure Config where
  mode : Mode
  language : Language
  sources : List Path
  destination : Path
  optimize : Bool
  debugSymbols : Bool
  warnings : Bool
  /-- Whether compiler output is shown in colour. -/
  colour : Bool
  verbose : Bool
  /-- The level at which compiler output is simplified, 0 to 255. -/
  level : Nat
  /-- Options handed to the compiler as they are. -/
  passthrough : List Text
  libraries : List Text
  gtk : Bool
  gtkmm : Bool
  /-- The arguments of the program that is built. -/
  programArguments : List Text
  /-- The operands that name no existing file. -/
  ignored : List Text
  deriving DecidableEq, Repr

namespace Config

/-- Linking nothing into a nameless program, with everything switched off. -/
def blank : Config :=
  { mode := .link, language := .unspecified, sources := [], destination := ⟨[]⟩
    optimize := false, debugSymbols := false, warnings := false, colour := false
    verbose := false, level := 0, passthrough := [], libraries := [], gtk := false
    gtkmm := false, programArguments := [], ignored := [] }

end Config

structure Toolchain where
  cCompiler : Text
  cppCompiler : Text
  lexerGenerator : Text
  debugger : Text
  memoryChecker : Text
  packageQuery : Text
  deriving DecidableEq, Repr

namespace Toolchain

def standard : Toolchain :=
  { cCompiler := "cc", cppCompiler := "cc++", lexerGenerator := "flex", debugger := "gdb",
    memoryChecker := "valgrind", packageQuery := "pkg-config" }

def environmentNames : List Text :=
  ["CCWRAP_CC", "CCWRAP_CXX", "CCWRAP_LEX", "CCWRAP_GDB", "CCWRAP_VALGRIND", "CCWRAP_PKG_CONFIG"]

/-- An override that is empty counts as absent. -/
def override (value : Option Text) (name : Text) : Text :=
  match value with
  | some (c :: rest) => c :: rest
  | _ => name

/-- The toolchain in an environment, given as the values of its variables. -/
def ofEnvironment (lookup : Text → Option Text) : Toolchain :=
  { cCompiler := override (lookup "CCWRAP_CC") standard.cCompiler
    cppCompiler := override (lookup "CCWRAP_CXX") standard.cppCompiler
    lexerGenerator := override (lookup "CCWRAP_LEX") standard.lexerGenerator
    debugger := override (lookup "CCWRAP_GDB") standard.debugger
    memoryChecker := override (lookup "CCWRAP_VALGRIND") standard.memoryChecker
    packageQuery := override (lookup "CCWRAP_PKG_CONFIG") standard.packageQuery }

def compiler (toolchain : Toolchain) (language : Language) : Text :=
  if language.isCpp then toolchain.cppCompiler else toolchain.cCompiler

@[simp] theorem override_none (name : Text) : override none name = name := rfl

@[simp] theorem override_empty (name : Text) : override (some []) name = name := rfl

end Toolchain

end CompilerFront
