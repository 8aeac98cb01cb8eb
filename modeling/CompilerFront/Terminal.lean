import CompilerFront.Text.Edit
import CompilerFront.Text.Utf8

set_option autoImplicit false

namespace CompilerFront

inductive Colour where
  | red
  | green
  | yellow
  | blue
  deriving DecidableEq, Repr

namespace Colour

def escape : Char := '\x1b'

/-- The sequence with which a terminal selects a rendition. -/
def select (digits : Text) : Text := escape :: '[' :: digits ++ ['m']

/-- The sequence that switches a colour on. -/
def code : Colour → Text
  | .red => select "31"
  | .green => select "32"
  | .yellow => select "33"
  | .blue => select "34"

def reset : Text := select "0"

def paint (colour : Colour) (text : Text) : Text :=
  colour.code ++ Text.replaceAll reset (reset ++ colour.code) text ++ reset

@[simp] theorem paint_nil (colour : Colour) : colour.paint [] = colour.code ++ reset := by
  simp [paint]

theorem code_ne_nil (colour : Colour) : colour.code ≠ [] := by cases colour <;> decide

/-- Whether text for the standard error stream is painted: colour must be asked for, the stream
must be a terminal, and the environment must not forbid it by a non-empty value. -/
def isUsed (requested terminal : Bool) (forbidding : Option Text) : Bool :=
  requested && terminal && forbidding.all (·.isEmpty)

end Colour

/-- What a text is emphasised as. -/
inductive Emphasis where
  /-- The word in front of an error. -/
  | error
  | heading
  /-- Something to type as it stands. -/
  | literal
  /-- Something that is wrong with the command line. -/
  | invalid
  deriving DecidableEq, Repr

namespace Emphasis

/-- The sequences that select the look. -/
def code : Emphasis → Text
  | .error => Colour.select "1" ++ Colour.select "31"
  | .heading => Colour.select "1" ++ Colour.select "4"
  | .literal => Colour.select "1"
  | .invalid => Colour.select "33"

/-- A text with its emphasis. Sequences inside of the text are left as they are. -/
def mark (emphasis : Emphasis) (text : Text) : Text := emphasis.code ++ text ++ Colour.reset

end Emphasis

namespace Terminal

/-- Where a terminal stands in the text it reads. -/
inductive Place where
  /-- Outside of escape sequences. -/
  | outside
  /-- Right behind an escape character. -/
  | escape
  /-- Behind the intermediate characters of an escape sequence. -/
  | intermediate
  | control
  /-- In a system command, which a bell may end. -/
  | command
  /-- At the head of a device control string. -/
  | device
  | deviceParameters
  | deviceIntermediates
  /-- In a string or in the data of a device control string. -/
  | string
  deriving DecidableEq, Repr

/-- Tabulators and the ends of lines and pages. -/
def isLayout (c : Char) : Bool := c == '\t' || c == '\n' || c == '\x0c' || c == '\r'

namespace Place

/-- Strings of every kind swallow layout characters, other sequences let them through. -/
def showsLayout : Place → Bool
  | .outside | .escape | .intermediate | .control => true
  | .command | .device | .deviceParameters | .deviceIntermediates | .string => false

/-- The place behind a control character that does not end every sequence. -/
def behindControl (place : Place) (c : Char) : Place :=
  if place = .command ∧ c = '\x07' then .outside else place

def behindAscii (place : Place) (c : Char) : Place :=
  match place with
  | .outside => .outside
  | .escape =>
    if c < '0' then .intermediate
    else if c = '[' then .control
    else if c = ']' then .command
    else if c = 'P' then .device
    else if c = 'X' || c = '^' || c = '_' then .string
    else .outside
  | .intermediate => if c < '0' then .intermediate else .outside
  | .control => if c < '@' then .control else .outside
  | .command => .command
  | .device =>
    if c < '0' then .deviceIntermediates else if c < '@' then .deviceParameters else .string
  | .deviceParameters =>
    if c < '0' then .deviceIntermediates else if c < '<' then .deviceParameters else .string
  | .deviceIntermediates => if c < '0' then .deviceIntermediates else .string
  | .string => .string

def terminator : UInt8 := 0x9C

/-- The place behind a character above ASCII. Sequences are read byte by byte, so a string also
ends inside of a character that has the terminator among its bytes. -/
def behindWide (place : Place) (c : Char) : Place :=
  if place = .string ∧ (Text.Utf8.encodeChar c).contains terminator then .outside else place

end Place

/-- The place behind a character, and whether the character is shown. -/
def read (place : Place) (c : Char) : Place × Bool :=
  if c = Colour.escape then (.escape, false)
  else if c = '\x18' || c = '\x1a' then (.outside, false)
  else if c = '\x7f' then (place, false)
  else if '\x7f' < c then (place.behindWide c, place = .outside)
  else if c < ' ' then (place.behindControl c, place.showsLayout && isLayout c)
  else (place.behindAscii c, place = .outside)

/-- How far a text was read, and whether its last character was shown. -/
structure Reading where
  place : Place
  showing : Bool
  deriving DecidableEq, Repr

namespace Reading

def start : Reading := ⟨.outside, false⟩

/-- Whether a character would be shown outside of sequences. -/
def isPlain (c : Char) : Bool := (read .outside c).2

/-- Goes over one character, and says whether it is shown. A shown character starts a run of plain
ones, all of which are shown. A layout character may start a run inside of a sequence, which goes on
behind the run unless the run holds a character above ASCII. -/
def next (reading : Reading) (c : Char) : Reading × Bool :=
  if reading.showing && isPlain c then
    (⟨if '\x7f' < c then .outside else reading.place, true⟩, true)
  else
    let (place, shown) := read reading.place c
    (⟨place, shown⟩, shown)

end Reading

def visibleFrom : Reading → Text → Text
  | _, [] => []
  | reading, c :: rest =>
    let next := reading.next c
    if next.2 then c :: visibleFrom next.1 rest else visibleFrom next.1 rest

/-- What a terminal shows of a text that arrives on a stream. -/
def visible (text : Text) : Text := visibleFrom .start text

@[simp] theorem visible_nil : visible [] = [] := rfl

/-- A terminal shows a painted text without its colour. -/
example : visible (Colour.paint .red "a\n") = "a\n" := by decide +kernel

/-- A sequence goes on behind the run that a tabulator starts inside of it. -/
example : visible "\x1b\ta\x07bc" = "\tac" := by decide +kernel

/-- The last byte of this letter ends the string, and its first two bytes are not shown. -/
example : visible "a\x1bXb\u2c9cc" = "ac" := by decide +kernel

end Terminal

end CompilerFront
