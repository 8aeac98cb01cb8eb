import CompilerFront.Diagnostic
import CompilerFront.Simplify.Fragment
import CompilerFront.Text.Basic
import CompilerFront.Text.Edit

set_option autoImplicit false

namespace CompilerFront.Simplify

/-- How much of the text behind a header's name and colon belongs to the location: the line number
and either the colon and space behind it or a comma that ends the text. -/
def positionLength (text : Text) : Nat :=
  let digits := text.takeWhile Text.isDigit
  let behind := text.drop digits.length
  if digits.isEmpty then 0
  else if (": " : Text).isPrefixOf behind then digits.length + 2
  else if behind = [','] then digits.length + 1
  else digits.length

/-- Removes a header directory with the name up to the next colon and the position behind it. A
directory with nothing before the next colon, or with no colon at all, is copied. -/
def headerRule : Text.Rule := fun _ text =>
  match systemHeaders.isPrefixOf? text with
  | none => none
  | some after =>
    let name := after.takeWhile (· ≠ ':')
    match after.drop name.length with
    | _ :: behind =>
      if name.isEmpty then some (systemHeaders, systemHeaders.length)
      else some ([], systemHeaders.length + name.length + 1 + positionLength behind)
    | [] => some (systemHeaders, systemHeaders.length)

def removeHeaderLocations (line : Text) : Text := Text.edit headerRule line

@[simp] theorem removeHeaderLocations_nil : removeHeaderLocations [] = [] := rfl

theorem headerRule_of_not_isPrefixOf {before : Option Char} {text : Text}
    (absent : systemHeaders.isPrefixOf? text = none) : headerRule before text = none := by
  simp [headerRule, absent]

example : removeHeaderLocations "/usr/include/c++/4/vector:12: error: x" = "error: x" := by
  decide +kernel

def lineWidth : Nat := 72

def indentation : Text := "    "

/-- The lines from the one at hand on, which holds at least one word. -/
def fillFrom (width : Nat) : Text → List Text → List Text
  | line, [] => [line]
  | line, word :: rest =>
    if width < line.length + 1 + word.length then
      line :: fillFrom width (indentation ++ word) rest
    else fillFrom width (line ++ ' ' :: word) rest

def fill (width : Nat) : List Text → List Text
  | [] => []
  | word :: rest => fillFrom width word rest

/-- A line, on as many lines as its words need. -/
def fillLine (line : Text) : Text := Text.joinWith "\n" (fill lineWidth (Text.words line))

@[simp] theorem fill_nil (width : Nat) : fill width [] = [] := rfl

theorem fillFrom_ne_nil (width : Nat) (line : Text) (words : List Text) :
    fillFrom width line words ≠ [] := by
  induction words generalizing line with
  | nil => simp [fillFrom]
  | cons word rest ih =>
    simp only [fillFrom]
    split
    · simp
    · exact ih _

theorem fillFrom_of_le {width : Nat} {line word : Text} (rest : List Text)
    (fits : line.length + 1 + word.length ≤ width) :
    fillFrom width line (word :: rest) = fillFrom width (line ++ ' ' :: word) rest := by
  simp [fillFrom, Nat.not_lt.mpr fits]

theorem fillFrom_of_lt {width : Nat} {line word : Text} (rest : List Text)
    (full : width < line.length + 1 + word.length) :
    fillFrom width line (word :: rest) =
      line :: fillFrom width (indentation ++ word) rest := by
  simp [fillFrom, full]

/-- How lines begin that are dropped at every level above 0: the chain of includes, and the place
of an earlier definition. -/
def droppedStarts : List Text := ["from ", "note: previous definition", "In file included from"]

def isDropped (line : Text) : Bool :=
  droppedStarts.any fun start => start.isPrefixOf (Text.trimStart line)

/-- Writes the simplified form of a fragment for every place where the fragment stands. -/
def simplifyWithin (level : Nat) (line fragment : Text) : Text :=
  Text.replaceAll fragment (simplifyFragment level fragment) line

/-- Simplifies the fragments one after the other, drops the line or its blanks at the end, and
fills it if it is long. -/
def simplifyFragments (level : Nat) (fragments : List Text) (line : Text) : Text :=
  let simplified := Text.trimEnd (fragments.foldl (simplifyWithin level) line)
  if isDropped simplified then []
  else if fillLevel ≤ level ∧ lineWidth < simplified.length then fillLine simplified
  else simplified

/-- A line of compiler output at a given level of simplification. From the library level on the
locations in system headers are hidden, and an error at such a place is not shown at all. -/
def simplifyLine (level : Nat) (diagnostic : Diagnostic) (line : Text) : Text :=
  if level = 0 then line
  else if libraryLevel ≤ level then
    let short := removeHeaderLocations line
    if ("error: " : Text).isPrefixOf short then []
    else simplifyFragments level diagnostic.fragments short
  else simplifyFragments level diagnostic.fragments line

@[simp] theorem simplifyLine_zero (diagnostic : Diagnostic) (line : Text) :
    simplifyLine 0 diagnostic line = line := rfl

theorem simplifyLine_one (diagnostic : Diagnostic) (line : Text) :
    simplifyLine 1 diagnostic line = simplifyFragments 1 diagnostic.fragments line := rfl

theorem simplifyLine_of_le {level : Nat} (hidden : libraryLevel ≤ level) (diagnostic : Diagnostic)
    (line : Text) :
    simplifyLine level diagnostic line =
      if ("error: " : Text).isPrefixOf (removeHeaderLocations line) then []
      else simplifyFragments level diagnostic.fragments (removeHeaderLocations line) := by
  have positive : level ≠ 0 := Nat.ne_of_gt (Nat.lt_of_lt_of_le (by decide) hidden)
  simp only [simplifyLine, if_neg positive, if_pos hidden]

theorem simplifyLine_of_lt {level : Nat} (simplified : codeLevel ≤ level)
    (shown : level < libraryLevel) (diagnostic : Diagnostic) (line : Text) :
    simplifyLine level diagnostic line = simplifyFragments level diagnostic.fragments line := by
  have positive : level ≠ 0 := Nat.ne_of_gt simplified
  simp only [simplifyLine, if_neg positive, if_neg (Nat.not_le.mpr shown)]

@[simp] theorem simplifyFragments_nil (level : Nat) (fragments : List Text) :
    simplifyFragments level fragments [] = [] := by
  have empty : fragments.foldl (simplifyWithin level) [] = [] := by
    induction fragments with
    | nil => rfl
    | cons fragment rest ih => simpa [simplifyWithin] using ih
  simp only [simplifyFragments, empty]
  split
  · rfl
  · split <;> rfl

end CompilerFront.Simplify
