import CompilerFront.Diagnostic
import CompilerFront.Simplify.Line
import CompilerFront.Terminal

set_option autoImplicit false

namespace CompilerFront

inductive Formatter where
  | plain
  /-- Whether messages are painted, and whether output may be painted where that is asked for. -/
  | rich (paintsMessages paintsOutput : Bool)
  deriving DecidableEq, Repr

def DiagnosticKind.colour : DiagnosticKind → Colour
  | .error => .red
  | .warning => .green
  | .message => .yellow
  | .note => .blue

def Severity.colour : Severity → Colour
  | .error => .red
  | .warning => .green
  | .note => .blue
  | .info => .yellow

namespace Formatter

/-- A line of compiler output as it is shown, `none` if it is dropped. -/
def showLine (colour : Bool) (level : Nat) (line : Text) : Option Text :=
  let diagnostic := Diagnostic.ofLine line
  let simplified := Simplify.simplifyLine level diagnostic line
  if simplified.isEmpty then none
  else
    match diagnostic.kind with
    | some kind => some (if colour then kind.colour.paint simplified else simplified)
    | none => some simplified

/-- Compiler output as it is shown, in colour or not, at a level of simplification. -/
def presentOutput (formatter : Formatter) (colour : Bool) (level : Nat) (text : Text) : Text :=
  match formatter with
  | .plain => Text.joinWith "\n" ((Text.lines text).map fun line => programName ++ ": " ++ line)
  | .rich _ paintsOutput =>
    Text.joinWith "\n" ((Text.lines text).filterMap (showLine (colour && paintsOutput) level))

def presentMessage (formatter : Formatter) (severity : Severity) (message : Text) : Text :=
  match formatter with
  | .plain => programName ++ ": " ++ message
  | .rich paintsMessages _ =>
    let text := programName ++ ": " ++ severity.label ++ ": " ++ message
    if paintsMessages then severity.colour.paint text else text

/-- The formatter for a standard error stream, which paints all or nothing. -/
def select (requested terminal : Bool) (forbidding : Option Text) : Formatter :=
  let painted := Colour.isUsed requested terminal forbidding
  .rich painted painted

@[simp] theorem presentOutput_nil (formatter : Formatter) (colour : Bool) (level : Nat) :
    formatter.presentOutput colour level [] = [] := by
  cases formatter <;> rfl

theorem showLine_of_dropped {colour : Bool} {level : Nat} {line : Text}
    (dropped : Simplify.simplifyLine level (Diagnostic.ofLine line) line = []) :
    showLine colour level line = none := by
  simp [showLine, dropped]

end Formatter

end CompilerFront
