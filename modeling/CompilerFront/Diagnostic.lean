import CompilerFront.Text.Basic

set_option autoImplicit false

namespace CompilerFront

def programName : Text := "ccwrap"

inductive Severity where
  | error
  | warning
  | note
  | info
  deriving DecidableEq, Repr

namespace Severity

def label : Severity → Text
  | .error => "error"
  | .warning => "warning"
  | .note => "note"
  | .info => "info"

end Severity

/-- The kinds of output lines. A message is a line of the linker driver's own. -/
inductive DiagnosticKind where
  | error
  | warning
  | message
  | note
  deriving DecidableEq, Repr

namespace DiagnosticKind

def ofWord? (word : Text) : Option DiagnosticKind :=
  if word = "error".toList ∨ word = "fatal error".toList then some .error
  else if word = "warning".toList then some .warning
  else if word = "note".toList then some .note
  else none

end DiagnosticKind

/-- One line of compiler output, taken apart. -/
structure Diagnostic where
  /-- Absent for a line that is no diagnostic. -/
  kind : Option DiagnosticKind
  file : Text
  line : Option Nat
  column : Option Nat
  /-- Whether the file is a header of the system. -/
  inSystemHeader : Bool
  /-- The message without its location and kind. -/
  message : Text
  /-- The pieces of code that the message is about, left to right. -/
  fragments : List Text
  deriving DecidableEq, Repr

/-- A line about which nothing is known. -/
def Diagnostic.unclassified : Diagnostic :=
  { kind := none, file := [], line := none, column := none, inSystemHeader := false, message := [],
    fragments := [] }

def systemHeaders : Text := "/usr/include/"

namespace Diagnostic

/-- Whether a line is cut at a character, given its two neighbours. -/
def isCut (before : Option Char) (c : Char) (rest : Text) : Bool :=
  (c == ':' && before ≠ some ':' && rest.head? ≠ some ':') || (c == ',' && rest.isEmpty)

/-- The pieces between the cuts of a line, from behind the character `before` on. -/
def pieces : Option Char → Text → List Text
  | _, [] => [[]]
  | before, c :: rest =>
    if isCut before c rest then [] :: pieces (some c) rest
    else Text.consHead c (pieces (some c) rest)

/-- The pieces between the cuts, each without blanks at its ends. -/
def segments (line : Text) : List Text := (pieces none line).map Text.trim

theorem pieces_ne_nil (before : Option Char) (line : Text) : pieces before line ≠ [] := by
  cases line with
  | nil => simp [pieces]
  | cons c rest =>
    simp only [pieces]
    split
    · simp
    · cases pieces (some c) rest <;> simp [Text.consHead]

theorem segments_ne_nil (line : Text) : segments line ≠ [] := by
  simp [segments, pieces_ne_nil]

example : segments "a.cc:3:7: error: std::string x," =
    (["a.cc", "3", "7", "error", "std::string x", ""] : List Text) := by decide

def openQuote : Char := '\u2018'

def closeQuote : Char := '\u2019'

/-- The non-empty fragments that are closed in the rest of a message. The first argument holds what
was read of the fragment at hand, `none` outside of quotes; an opening quote inside of a fragment
is part of it. -/
def quotationsFrom : Option Text → Text → List Text
  | _, [] => []
  | none, c :: rest => quotationsFrom (if c = openQuote then some [] else none) rest
  | some fragment, c :: rest =>
    if c = closeQuote then
      if fragment.isEmpty then quotationsFrom none rest else fragment :: quotationsFrom none rest
    else quotationsFrom (some (fragment ++ [c])) rest

/-- The non-empty texts from an opening quote to the next closing one. -/
def quotations (message : Text) : List Text := quotationsFrom none message

/-- The text taken for code in a message without quotes. -/
def plainFragment (segments : List Text) : Text :=
  match segments with
  | first :: rest =>
    Text.joinWith ":" (if first = "candidates are".toList then rest else segments)
  | [] => []

/-- Enters a message, given by its segments, with the code it is about. -/
def withMessage (diagnostic : Diagnostic) (segments : List Text) : Diagnostic :=
  let message := Text.joinWith ": " segments
  let quoted := quotations message
  let fragments :=
    if quoted.isEmpty then [plainFragment segments].filter (!·.isEmpty) else quoted
  { diagnostic with message, fragments }

@[simp] theorem quotations_nil : quotations [] = [] := rfl

theorem quotationsFrom_outside {c : Char} (h : c ≠ openQuote) (rest : Text) :
    quotationsFrom none (c :: rest) = quotationsFrom none rest := by
  simp [quotationsFrom, h]

theorem quotationsFrom_inside {c : Char} (h : c ≠ closeQuote) (fragment rest : Text) :
    quotationsFrom (some fragment) (c :: rest) = quotationsFrom (some (fragment ++ [c])) rest := by
  simp [quotationsFrom, h]

/-- Line and column numbers have 32 bits; a numeral beyond that gives none. -/
def position? (numeral : Text) : Option Nat :=
  let value := Text.decimalValue numeral
  if value ≤ 0xFFFFFFFF then some value else none

/-- A place in an object file as the linker prints it, such as `(.text+0x1f)`. -/
def isLinkerReference (segment : Text) : Bool :=
  match ("(." : Text).isPrefixOf? segment with
  | none => false
  | some inner =>
    inner.getLast? = some ')' &&
      match Text.cut? "+0x" inner.dropLast with
      | none => false
      | some (block, offset) =>
        !block.isEmpty && block.all Text.isIdentifierChar &&
          !offset.isEmpty && offset.all fun c => Text.isHexDigit c || c == '_'

/-- The first segment without the words of an include chain. -/
def withoutChainWords (segment : Text) : Text :=
  match ("In file included from" : Text).isPrefixOf? segment with
  | some rest => Text.trim rest
  | none =>
    match ("from " : Text).isPrefixOf? segment with
    | some rest => Text.trim rest
    | none => segment

/-- The column, if the segments behind a line number start with one, and what follows. -/
def takeColumn : List Text → Option Nat × List Text
  | [] => (none, [])
  | segment :: rest =>
    if Text.isNumeral segment then (position? segment, rest) else (none, segment :: rest)

/-- The kind, if the segments behind a position start with one, and the message that follows.
Without a kind the line is a note. -/
def takeKind : List Text → DiagnosticKind × List Text
  | [] => (.note, [])
  | segment :: rest =>
    match DiagnosticKind.ofWord? segment with
    | some kind => (kind, rest)
    | none => (.note, segment :: rest)

/-- A line whose first segment names a file. -/
def located (file second : Text) (rest : List Text) : Diagnostic :=
  let place := { unclassified with file, inSystemHeader := systemHeaders.isPrefixOf file }
  if isLinkerReference second then { place with kind := some .warning }.withMessage rest
  else if Text.isNumeral second then
    let (column, behind) := takeColumn rest
    let (kind, message) := takeKind behind
    { place with kind := some kind, line := position? second, column }.withMessage message
  else if second.isEmpty then place
  else { place with kind := some .note }.withMessage (second :: rest)

/-- Reads the segments of a line. A line in one segment is a note from an unknown file, and a first
segment that is empty or holds a space names no file. -/
def ofSegments : List Text → Diagnostic
  | first :: second :: rest =>
    let head := withoutChainWords first
    if head = "collect2".toList then
      { unclassified with kind := some .message }.withMessage (second :: rest)
    else if head.isEmpty || head.contains ' ' then unclassified
    else located head second rest
  | single => { unclassified with kind := some .note, file := "<unknown>" }.withMessage single

def ofLine (line : Text) : Diagnostic := ofSegments (segments (Text.trim line))

example : ofLine "a.cc:3:7: fatal error: no x: gone" =
    { kind := some .error, file := "a.cc", line := some 3, column := some 7,
      inSystemHeader := false, message := "no x: gone", fragments := ["no x:gone"] } := by
  decide +kernel

example : (ofLine "m.o:(.text+0x1f): undefined reference").kind = some .warning := by
  decide +kernel

example : ofLine "a b.c:3: error: x" = unclassified := by decide +kernel

end Diagnostic

end CompilerFront
