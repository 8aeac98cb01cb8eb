import CompilerFront.Options.Usage
import CompilerFront.Text.Basic

set_option autoImplicit false

/-!
Reading the options of a command line, argument by argument. An option whose value is a separate
argument is checked only when the next option or operand is accepted, or at the end; an argument
that no option accepts is therefore reported before it.
-/
namespace CompilerFront

/-- Why the reading of a command line ends without options. -/
inductive Stop where
  | help
  | version
  | usage (error : UsageError)
  deriving DecidableEq, Repr

namespace Options

/-- What has been given, and the option whose value was not checked yet, with that value if it was
read. -/
structure Reading where
  options : Options
  pending : Option (ValueOption × Option Text)
  deriving DecidableEq, Repr

def fail {α : Type} (error : UsageError) : Except Stop α := .error (.usage error)

/-- Takes the value of an option. Whether the option may be given again is checked before the
value. -/
def give (options : Options) (option : ValueOption) (value : Text) : Except Stop Options :=
  match option with
  | .language =>
    if options.language.isSome then fail (.repeated (.value .language))
    else if value ∈ Language.names then
      .ok { options with language := some (.ofName value) }
    else if value.isEmpty then fail (.missingValue .language)
    else fail (.invalidValue value .language)
  | .output =>
    if options.output.isSome then fail (.repeated (.value .output))
    else if value.isEmpty then fail (.missingValue .output)
    else .ok { options with output := some ⟨value⟩ }
  | .passthrough => .ok { options with passthrough := options.passthrough ++ [value] }
  | .library => .ok { options with libraries := options.libraries ++ [value] }

def turnOn (options : Options) (switch : Switch) : Except Stop Options :=
  if options.has switch then fail (.repeated (.switch switch))
  else .ok { options with switches := options.switches ++ [switch] }

/-- Counts one more request for simplification, up to 255. -/
def simplifyMore (options : Options) : Options :=
  { options with simplify := min 255 (options.simplify + 1) }

def addOperand (options : Options) (operand : Text) : Options :=
  { options with operands := options.operands ++ [operand] }

namespace Reading

def start : Reading := { options := .nothing, pending := none }

/-- Checks and takes the value that is pending, and gives the options. -/
def settle (reading : Reading) : Except Stop Options :=
  match reading.pending with
  | none => .ok reading.options
  | some (option, some value) => reading.options.give option value
  | some (option, none) => fail (.missingValue option)

/-- Takes an option with the value that is attached to it, if there is one. -/
def accept (reading : Reading) (key : OptionKey) (attached : Option Text) :
    Except Stop Reading :=
  match key, attached with
  | .value option, some value => do
    let options ← (← reading.settle).give option value
    return { options, pending := none }
  | .value option, none => do
    let options ← reading.settle
    return { options, pending := some (option, none) }
  | .switch switch, none => do
    let options ← (← reading.settle).turnOn switch
    return { options, pending := none }
  | .simplify, none => do
    let options ← reading.settle
    return { options := options.simplifyMore, pending := none }
  | .help, none => do
    let _ ← reading.settle
    throw .help
  | .version, none => do
    let _ ← reading.settle
    throw .version
  | key, some value => fail (.unexpectedValue value key)

/-- A long option, without its dashes. A value may follow an equals sign. -/
def long (reading : Reading) (text : Text) : Except Stop Reading :=
  let (name, attached) :=
    match Text.cut? "=" text with
    | some (name, value) => (name, some value)
    | none => (text, none)
  match OptionKey.ofLong? name with
  | none => fail (.unknown ("--" ++ name))
  | some key => reading.accept key attached

/-- The value attached to a short option by the characters behind it. One equals sign in front of
it does not belong to it. -/
def attachedValue : Text → Option Text
  | [] => none
  | '=' :: value => some value
  | value => some value

/-- A cluster of short options, without its dash. An option with a value takes the rest of the
cluster for it. -/
def short (reading : Reading) : Text → Except Stop Reading
  | [] => .ok reading
  | c :: rest =>
    match OptionKey.ofShort? c with
    | none => fail (.unknown ['-', c])
    | some (.value option) => reading.accept (.value option) (attachedValue rest)
    | some key =>
      match reading.accept key none with
      | .ok next => next.short rest
      | .error stop => .error stop

def operand (reading : Reading) (text : Text) : Except Stop Reading := do
  let options ← reading.settle
  return { options := options.addOperand text, pending := none }

/-- Whether an argument looks like an option. A single dash does not. -/
def looksLikeOption : Text → Bool
  | '-' :: _ :: _ => true
  | _ => false

/-- The option that waits for its value and takes this argument for it. -/
def waiting? (reading : Reading) (argument : Text) : Option ValueOption :=
  match reading.pending with
  | some (option, none) =>
    if option.takesAnything || !looksLikeOption argument then some option else none
  | _ => none

def next (reading : Reading) (argument : Text) : Except Stop Reading :=
  match reading.waiting? argument with
  | some option => .ok { reading with pending := some (option, some argument) }
  | none =>
    match argument with
    | '-' :: '-' :: text => reading.long text
    | '-' :: c :: rest => reading.short (c :: rest)
    | _ => reading.operand argument

def all (reading : Reading) : List Text → Except Stop Reading
  | [] => .ok reading
  | argument :: rest =>
    match reading.next argument with
    | .ok next => next.all rest
    | .error stop => .error stop

theorem all_append (reading : Reading) (first second : List Text) :
    reading.all (first ++ second) = (reading.all first).bind fun next => next.all second := by
  induction first generalizing reading with
  | nil => rfl
  | cons argument rest ih =>
    simp only [List.cons_append, all]
    cases reading.next argument with
    | ok next => exact ih next
    | error stop => rfl

end Reading

/-- The options of a command line, without the program's name. -/
def parse (arguments : List Text) : Except Stop Options := do
  (← Reading.start.all arguments).settle

@[simp] theorem parse_nil : parse [] = .ok nothing := rfl

example : (parse ["-cw", "-ofile", "a.c", "-p", "-c"]).toOption.map (·.passthrough) =
    some ["-c".toList] := by decide +kernel

example : parse ["-o", "-c"] = .error (.usage (.missingValue .output)) := rfl

/-- An unknown option is reported before the value that the option in front of it lacks. -/
example : parse ["-o", "--zz"] = .error (.usage (.unknown "--zz")) := rfl

end Options

end CompilerFront
