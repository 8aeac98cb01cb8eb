import CompilerFront.Path

set_option autoImplicit false

namespace CompilerFront

/-- The language the compiler is told to expect; `unspecified` leaves the guess to the compiler. -/
inductive Language where
  | asm
  | c
  | c99
  | cpp
  | cpp11
  | unspecified
  deriving DecidableEq, Repr

namespace Language

def names : List Text :=
  ["asm", "c", "c89", "c99", "cpp", "c++", "c++0x", "c++1x", "flex", "none"]

/-- The language of a name. The names of no particular language, and any other text, leave it
unspecified. -/
def ofName (name : Text) : Language :=
  if name = "asm".toList then .asm
  else if name = "c".toList ∨ name = "c89".toList then .c
  else if name = "c99".toList then .c99
  else if name = "cpp".toList ∨ name = "c++".toList then .cpp
  else if name = "c++0x".toList ∨ name = "c++1x".toList then .cpp11
  else .unspecified

def isCpp : Language → Bool
  | .cpp | .cpp11 => true
  | _ => false

/-- The flags that select the language, first in the compiler's argument list. -/
def flags : Language → List Text
  | .asm => ["-x", "asm"]
  | .c => ["-x", "c", "-ansi"]
  | .c99 => ["-x", "c", "-std=c99"]
  | .cpp => ["-x", "c++", "-ansi", "-fexceptions"]
  | .cpp11 => ["-x", "c++", "-std=c++0x", "-fexceptions"]
  | .unspecified => []

end Language

/-- What a source file is, judged by its extension. -/
inductive SourceKind where
  | asm
  | c
  | cpp
  | lexer
  | unknown
  deriving DecidableEq, Repr

namespace SourceKind

def extensions : List (SourceKind × List Text) :=
  [(.asm, ["s", "asm"]), (.c, ["c"]), (.cpp, ["cpp", "cxx", "cc", "cp", "c++"]), (.lexer, ["l"])]

/-- The kind of an extension, in any letter case. -/
def ofExtension (extension : Text) : SourceKind :=
  match extensions.find? fun entry => entry.2.contains extension.toLower with
  | some entry => entry.1
  | none => .unknown

def language? : SourceKind → Option Language
  | .asm => some .asm
  | .c => some .c
  | .cpp => some .cpp
  | .lexer | .unknown => none

end SourceKind

namespace Path

def kind (path : Path) : SourceKind :=
  match path.extension? with
  | some extension => .ofExtension extension
  | none => .unknown

def isLexerInput (path : Path) : Bool := path.kind = .lexer

end Path

namespace Language

/-- The one language among those listed; unspecified if there is none or if two differ. -/
def common : List Language → Language
  | [] => .unspecified
  | first :: rest => if rest.all (· = first) then first else .unspecified

/-- The language that every file with a language has. Lexer inputs and unknown files do not
count. -/
def ofFiles (files : List Path) : Language :=
  common (files.filterMap fun file => file.kind.language?)

@[simp] theorem ofFiles_nil : ofFiles [] = .unspecified := rfl

example : ofFiles [⟨"a.C"⟩, ⟨"scan.l"⟩, ⟨"d/b.c/"⟩] = .c := by decide

example : ofFiles [⟨"a.c"⟩, ⟨"b.cc"⟩] = .unspecified := by decide

end Language

end CompilerFront
