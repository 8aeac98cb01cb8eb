import CompilerFront.Language
import CompilerFront.Path
import CompilerFront.Text.Basic

set_option autoImplicit false

namespace CompilerFront

/-- Options without a value that may be given once. -/
inductive Switch where
  | compile
  | plainColours
  | execute
  | shared
  | assembly
  | preprocess
  | debug
  | optimize
  | debuggerHelp
  | quiet
  | cpp0x
  | cpp1x
  | verbose
  | gtk
  | gtkmm
  | memcheck
  deriving DecidableEq, Repr

/-- Options with a value. The language and the output may be given once, the others repeat. -/
inductive ValueOption where
  | language
  | output
  | passthrough
  | library
  deriving DecidableEq, Repr

/-- Everything that has an option's name. Help and version end the reading of the command line, and
simplification counts how often it is given. -/
inductive OptionKey where
  | switch (switch : Switch)
  | value (option : ValueOption)
  | simplify
  | help
  | version
  deriving DecidableEq, Repr

/-- How an option is written and what the help says about it. -/
structure OptionForm where
  short : Option Char
  long : Option Text
  /-- What stands for the value, for an option that takes one. -/
  valueName : Option Text
  /-- What the help shows behind the option. -/
  purpose : Text

namespace Switch

def form : Switch → OptionForm
  | .compile => ⟨some 'c', some "compile", none, "Compile only, do not link"⟩
  | .plainColours => ⟨some 'C', some "no-colors", none, "Disable colored output"⟩
  | .execute => ⟨some 'e', none, none, "Run the program after building it"⟩
  | .shared => ⟨some 's', some "shared", none, "Build a shared library"⟩
  | .assembly => ⟨some 'S', some "compile-proper", none, "Compile to assembly only"⟩
  | .preprocess => ⟨some 'E', some "preprocess", none, "Preprocess only"⟩
  | .debug =>
    ⟨some 'g', some "debug", none, "Build with debug symbols and run the program under gdb"⟩
  | .optimize => ⟨some 'O', some "optimize", none, "Optimize the build"⟩
  | .debuggerHelp => ⟨some 'G', some "gdb-help", none, "Print a short gdb reference and exit"⟩
  | .quiet => ⟨some 'w', some "no-warnings", none, "Disable compiler warnings"⟩
  | .cpp0x => ⟨none, some "0x", none, "Use the C++0x standard"⟩
  | .cpp1x => ⟨none, some "1x", none, "Use the C++1x standard"⟩
  | .verbose => ⟨some 'v', some "verbose", none, "Print the commands being run"⟩
  | .gtk => ⟨none, some "lgtk", none, "Add the gtk compile and link flags"⟩
  | .gtkmm => ⟨none, some "lgtkmm", none, "Add the gtkmm compile and link flags"⟩
  | .memcheck =>
    ⟨none, some "valgrind", none, "Run the program under valgrind after building it"⟩

end Switch

namespace ValueOption

def form : ValueOption → OptionForm
  | .language =>
    ⟨some 'x', some "lang", some "LANGUAGE",
      "Source language, overriding detection by extension [possible values: " ++
        Text.joinWith ", " Language.names ++ "]"⟩
  | .output => ⟨some 'o', none, some "FILENAME", "Output file"⟩
  | .passthrough =>
    ⟨some 'p', none, some "OPTIONS", "Options passed to the compiler as they are"⟩
  | .library => ⟨some 'l', none, some "LIBRARY", "Link against a library"⟩

/-- Only the pass-through option takes any next argument for its value; the others leave one that
looks like an option alone. -/
def takesAnything (option : ValueOption) : Bool := option = .passthrough

end ValueOption

namespace OptionKey

def form : OptionKey → OptionForm
  | .switch given => given.form
  | .value taking => taking.form
  | .simplify =>
    ⟨some 'b', some "beautify", none, "Beautify compiler output (repeat for more)"⟩
  | .help => ⟨some 'h', some "help", none, "Print help"⟩
  | .version => ⟨some 'V', some "version", none, "Print version"⟩

def all : List OptionKey :=
  [.switch .compile, .switch .plainColours, .switch .execute, .switch .shared, .switch .assembly,
    .switch .preprocess, .switch .debug, .switch .optimize, .switch .debuggerHelp, .switch .quiet,
    .value .language, .switch .cpp0x, .switch .cpp1x, .simplify, .value .output,
    .value .passthrough, .switch .verbose, .value .library, .switch .gtk, .switch .gtkmm,
    .switch .memcheck, .help, .version]

def ofShort? (short : Char) : Option OptionKey := all.find? fun key => key.form.short = some short

def ofLong? (long : Text) : Option OptionKey := all.find? fun key => key.form.long = some long

/-- An option in the words of an error: its long name where it has one, with the value it takes. A
counted option is marked as one that repeats. -/
def display (key : OptionKey) : Text :=
  let form := key.form
  let name : Text :=
    match form.long, form.short with
    | some long, _ => "--" ++ long
    | none, some short => ['-', short]
    | none, none => []
  match form.valueName with
  | some word => name ++ " <" ++ word ++ ">"
  | none => if key = .simplify then name ++ "..." else name

theorem mem_all (key : OptionKey) : key ∈ all := by
  cases key with
  | switch given => cases given <;> decide
  | value taking => cases taking <;> decide
  | simplify => decide
  | help => decide
  | version => decide

/-- No two options share a name. -/
theorem names_distinct :
    all.all (fun key =>
      key.form.short.all (fun short => ofShort? short = some key) &&
        key.form.long.all fun long => ofLong? long = some key) = true := by
  decide +kernel

theorem ofShort?_form {key : OptionKey} {short : Char} (named : key.form.short = some short) :
    ofShort? short = some key := by
  have found := List.all_eq_true.mp names_distinct key (mem_all key)
  simpa [named] using (Bool.and_eq_true_iff.mp found).1

theorem ofLong?_form {key : OptionKey} {long : Text} (named : key.form.long = some long) :
    ofLong? long = some key := by
  have found := List.all_eq_true.mp names_distinct key (mem_all key)
  simpa [named] using (Bool.and_eq_true_iff.mp found).2

end OptionKey

/-- The options and operands given so far. -/
structure Options where
  switches : List Switch
  /-- How often simplification was asked for, at most 255. -/
  simplify : Nat
  language : Option Language
  output : Option Path
  passthrough : List Text
  libraries : List Text
  operands : List Text
  deriving DecidableEq, Repr

namespace Options

def nothing : Options :=
  { switches := [], simplify := 0, language := none, output := none, passthrough := [],
    libraries := [], operands := [] }

def has (options : Options) (switch : Switch) : Bool := options.switches.contains switch

def separator : Text := "--"

/-- This program's own part of an argument list, and the arguments of the program that is built. -/
def splitArguments : List Text → List Text × List Text
  | [] => ([], [])
  | name :: rest =>
    (name :: rest.takeWhile (· ≠ separator), (rest.dropWhile (· ≠ separator)).drop 1)

@[simp] theorem splitArguments_nil : splitArguments [] = ([], []) := rfl

theorem ne_separator_of_not_mem {own : List Text} (absent : separator ∉ own) :
    ∀ argument ∈ own, decide (argument ≠ separator) = true := by
  intro argument inside
  rw [decide_eq_true_eq]
  rintro rfl
  exact absent inside

theorem splitArguments_append {name : Text} {own : List Text} (tail : List Text)
    (absent : separator ∉ own) :
    splitArguments (name :: own ++ separator :: tail) = (name :: own, tail) := by
  have all := ne_separator_of_not_mem absent
  simp only [splitArguments, List.cons_append, List.takeWhile_append_of_pos all,
    List.dropWhile_append_of_pos all]
  simp

theorem splitArguments_of_not_mem {name : Text} {own : List Text} (absent : separator ∉ own) :
    splitArguments (name :: own) = (name :: own, []) := by
  have all := ne_separator_of_not_mem absent
  have whole : own ++ [] = own := List.append_nil own
  rw [← whole]
  simp only [splitArguments, List.takeWhile_append_of_pos all, List.dropWhile_append_of_pos all]
  simp

end Options

end CompilerFront
