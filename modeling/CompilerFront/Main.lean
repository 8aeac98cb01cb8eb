import CompilerFront.Path
import CompilerFront.Program
import CompilerFront.Session

set_option autoImplicit false

namespace CompilerFront.Dialogue

def escapeChar (c : Char) : Text :=
  if c = '\\' then ['\\', '\\']
  else if c = '\t' then ['\\', 't']
  else if c = '\n' then ['\\', 'n']
  else if c = '\r' then ['\\', 'r']
  else [c]

def escape (field : Text) : Text := field.flatMap escapeChar

/-- The character that an escaped letter stands for. -/
def letterChar (letter : Char) : Char :=
  if letter = 't' then '\t'
  else if letter = 'n' then '\n'
  else if letter = 'r' then '\r'
  else letter

def unescape : Text → Text
  | [] => []
  | ['\\'] => ['\\']
  | '\\' :: letter :: rest => letterChar letter :: unescape rest
  | c :: rest => c :: unescape rest

def ofFields (fields : List Text) : Text := Text.joinWith ['\t'] (fields.map escape)

def toFields (line : Text) : List Text := (line.splitOn '\t').map unescape

def existenceLine (path : Path) : Text := ofFields ["exists", path.text]

def requestLine : Request → Text
  | .capture command => ofFields ("capture" :: command.program :: command.arguments)
  | .interactive command => ofFields ("interactive" :: command.program :: command.arguments)

def isYes (line : Text) : Bool := line = "yes".toList

def bytesOfHex : Text → List UInt8
  | high :: low :: rest =>
    UInt8.ofNat (16 * Text.digitValue high + Text.digitValue low) :: bytesOfHex rest
  | _ => []

/-- The answer to a request: `exit` or `signal` with a number, or `interrupt`, and then the two
captured streams; `missing` with a reason. Anything else means that nothing was started. -/
def replyOfLine (line : Text) : Reply :=
  match toFields line with
  | word :: field :: streams =>
    let stdout := bytesOfHex (streams.head?.getD [])
    let stderr := bytesOfHex ((streams.drop 1).head?.getD [])
    if word = "exit".toList then
      .ended (.ofCode (.ofNat (Text.decimalValue field))) stdout stderr
    else if word = "signal".toList then
      .ended (.signaled (.ofNat (Text.decimalValue field))) stdout stderr
    else if word = "interrupt".toList then .ended .interrupted stdout stderr
    else .notStarted field
  | fields => .notStarted (fields.head?.getD [])

theorem unescape_escapeChar_append (c : Char) (rest : Text) :
    unescape (escapeChar c ++ rest) = c :: unescape rest := by
  unfold escapeChar
  split
  · subst_vars; simp [unescape, letterChar]
  · split
    · subst_vars; simp [unescape, letterChar]
    · split
      · subst_vars; simp [unescape, letterChar]
      · split
        · subst_vars; simp [unescape, letterChar]
        · rename_i notBackslash _ _ _
          cases rest <;> simp [unescape, notBackslash]

/-- A field is read as it was written. -/
theorem unescape_escape (field : Text) : unescape (escape field) = field := by
  induction field with
  | nil => rfl
  | cons c rest ih =>
    simp only [escape, List.flatMap_cons] at ih ⊢
    rw [unescape_escapeChar_append, ih]

end CompilerFront.Dialogue

namespace CompilerFront.Main

def converse (question : Text) : IO Text := do
  let output ← IO.getStdout
  output.putStrLn (String.ofList question)
  output.flush
  let answer ← (← IO.getStdin).getLine
  return answer.toList.filter fun c => c ≠ '\n' && c ≠ '\r'

def pathExists (path : Path) : IO Bool := do
  return Dialogue.isYes (← converse (Dialogue.existenceLine path))

def answer (request : Request) : IO Reply := do
  return Dialogue.replyOfLine (← converse (Dialogue.requestLine request))

def write (stream : IO.FS.Stream) (bytes : List UInt8) : IO Unit := do
  stream.write (ByteArray.mk bytes.toArray)
  stream.flush

def present (notice : Notice) : IO Unit := do
  write (← IO.getStderr) (Program.shown notice)

/-- The variables that a run depends on. -/
def environmentNames : List Text := "NO_COLOR" :: Toolchain.environmentNames

def environment : IO (List (Text × Text)) := do
  let values ← environmentNames.mapM fun name => do
    return (← IO.getEnv (String.ofList name)).map fun value => (name, value.toList)
  return values.filterMap id

def surroundings (arguments : List Text) : IO Surroundings := do
  let existing ← (Program.operands arguments).filterM fun operand => pathExists ⟨operand⟩
  let values ← environment
  return {
    exists? := fun path => existing.contains path.text
    environment := fun name => values.lookup name
    terminal := ← (← IO.getStderr).isTty }

def run (arguments : List Text) : IO Nat := do
  let session := Program.session (← surroundings arguments) arguments
  let ending ← session.interpret answer present
  write (← IO.getStdout) ending.stdout
  write (← IO.getStderr) ending.stderr
  return ending.status

end CompilerFront.Main

def main (arguments : List String) : IO UInt32 := do
  let status ← CompilerFront.Main.run
    (CompilerFront.programName :: arguments.map String.toList)
  return UInt32.ofNat status
