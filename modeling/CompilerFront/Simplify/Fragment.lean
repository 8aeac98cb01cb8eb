import CompilerFront.Text.Basic
import CompilerFront.Text.Edit

set_option autoImplicit false

namespace CompilerFront.Simplify

/-- What a character adds to the bracket depth. All kinds of brackets count alike, and the depth is
kept in 32 bits: it wraps around. -/
def bracketStep (c : Char) : Int32 :=
  if c = '<' ∨ c = '[' ∨ c = '{' ∨ c = '(' then 1
  else if c = '>' ∨ c = ']' ∨ c = '}' ∨ c = ')' then -1
  else 0

/-- Opening brackets minus closing ones. -/
def bracketDepth (text : Text) : Int32 := text.foldr (fun c depth => bracketStep c + depth) 0

/-- The pieces between the commas at depth zero, from a given depth on. -/
def splitArgumentsFrom : Int32 → Text → List Text
  | _, [] => [[]]
  | depth, c :: rest =>
    if c = ',' ∧ depth = 0 then [] :: splitArgumentsFrom depth rest
    else Text.consHead c (splitArgumentsFrom (depth + bracketStep c) rest)

/-- The pieces between the commas outside of brackets. -/
def splitArguments (text : Text) : List Text := splitArgumentsFrom 0 text

/-- The text up to the first comma or equals sign at depth zero; none if there is no such sign or
if a bracket that was never opened is closed before it. -/
def argumentFrom? : Int32 → Text → Option Text
  | _, [] => none
  | depth, c :: rest =>
    if (c = ',' ∨ c = '=') ∧ depth = 0 then some []
    else
      let inner := depth + bracketStep c
      if inner < 0 then none else (argumentFrom? inner rest).map (c :: ·)

theorem bracketStep_eq_zero {c : Char} (noBracket : c ∉ ("<[{(>]})" : Text)) :
    bracketStep c = 0 := by
  have other {d : Char} (bracket : d ∈ ("<[{(>]})" : Text)) : c ≠ d := fun same =>
    noBracket (same ▸ bracket)
  rw [bracketStep, if_neg, if_neg]
  · simp only [not_or]
    exact ⟨other (by decide), other (by decide), other (by decide), other (by decide)⟩
  · simp only [not_or]
    exact ⟨other (by decide), other (by decide), other (by decide), other (by decide)⟩

theorem bracketStep_of_isIdentifierChar {c : Char} (isChar : Text.isIdentifierChar c = true) :
    bracketStep c = 0 := by
  have brackets : ∀ d ∈ ("<[{(>]})" : Text), Text.isIdentifierChar d = false := by decide
  refine bracketStep_eq_zero fun bracket => ?_
  rw [brackets c bracket] at isChar
  cases isChar

@[simp] theorem bracketDepth_nil : bracketDepth [] = 0 := rfl

@[simp] theorem bracketDepth_cons (c : Char) (rest : Text) :
    bracketDepth (c :: rest) = bracketStep c + bracketDepth rest := rfl

@[simp] theorem bracketDepth_append (first second : Text) :
    bracketDepth (first ++ second) = bracketDepth first + bracketDepth second := by
  induction first with
  | nil => simp
  | cons c rest ih => rw [List.cons_append, bracketDepth_cons, bracketDepth_cons, ih, Int32.add_assoc]

theorem splitArgumentsFrom_ne_nil (depth : Int32) (text : Text) :
    splitArgumentsFrom depth text ≠ [] := by
  cases text with
  | nil => simp [splitArgumentsFrom]
  | cons c rest =>
    simp only [splitArgumentsFrom]
    split
    · simp
    · cases splitArgumentsFrom (depth + bracketStep c) rest <;> simp [Text.consHead]

example : splitArguments "T = map<int, x>, U = f(a, b)" =
    (["T = map<int, x>", " U = f(a, b)"] : List Text) := by decide

/-- The body of a clause at the front of a text and the length of the whole clause. A clause
without a body is none. -/
def clause? (text : Text) : Option (Text × Nat) :=
  match ("[with" : Text).isPrefixOf? text with
  | none => none
  | some after =>
    let inner := Text.trimStart after
    let body := inner.takeWhile (· ≠ ']')
    if body.isEmpty || body.length = inner.length then none
    else some (body, text.length - inner.length + body.length + 1)

def firstClause? : Text → Option Text
  | [] => none
  | c :: rest =>
    match clause? (c :: rest) with
    | some (body, _) => some body
    | none => firstClause? rest

/-- The name and the value bound by an item such as `T = int`. -/
def binding? (item : Text) : Option (Text × Text) :=
  (Text.cut? "=" item).map fun parts => (Text.trim parts.1, Text.trim parts.2)

def bindings (code : Text) : List (Text × Text) :=
  match firstClause? code with
  | none => []
  | some body => (splitArguments body).filterMap binding?

def removeClauses (code : Text) : Text :=
  Text.edit (fun _ text => (clause? text).map fun clause => ([], clause.2)) code

example : bindings "f(T) [with T = vector<int, x>; U]" =
    [("T".toList, "vector<int, x>; U".toList)] := by decide

example : removeClauses "void f(T) [with T = int] here" = "void f(T)  here" := by decide

/-- Whether a neighbour, if there is one, leaves an identifier whole. -/
def endsIdentifier (neighbour : Option Char) : Bool :=
  !(neighbour.any Text.isIdentifierChar)

/-- Writes `value` for an occurrence of `key` that stands alone, and copies every other one. -/
def identifierRule (key value : Text) : Text.Rule := fun before text =>
  if key.isPrefixOf text then
    if endsIdentifier before && endsIdentifier (text.drop key.length).head? then
      some (value, key.length)
    else some (key, key.length)
  else none

/-- Replaces the occurrences of `key` that stand alone. The empty key occurs nowhere. -/
def replaceIdentifier (key value text : Text) : Text :=
  if key.isEmpty then text else Text.edit (identifierRule key value) text

/-- Replaces the names of some bindings one after the other. -/
def substitute (bindings : List (Text × Text)) (text : Text) : Text :=
  bindings.foldl (fun text binding => replaceIdentifier binding.1 binding.2 text) text

@[simp] theorem substitute_nil (text : Text) : substitute [] text = text := rfl

@[simp] theorem substitute_cons (binding : Text × Text) (bindings : List (Text × Text))
    (text : Text) :
    substitute (binding :: bindings) text =
      substitute bindings (replaceIdentifier binding.1 binding.2 text) := rfl

example : replaceIdentifier "T" "int" "f(T, T2, const T&)" = "f(int, T2, const int&)" := by decide

def spacedBrackets : Text := "> >"

def closedBrackets : Text := ">>"

/-- Removes the spaces between closing brackets. Every pass makes the text shorter. -/
def closeUp (code : Text) : Text :=
  if Text.occursIn spacedBrackets code then
    closeUp (Text.replaceAll spacedBrackets closedBrackets code)
  else code
termination_by code.length
decreasing_by exact Text.length_replaceAll_lt (by decide) ‹_›

theorem closeUp_of_not_occursIn {code : Text} (h : Text.occursIn spacedBrackets code = false) :
    closeUp code = code := by
  rw [closeUp]
  simp [h]

theorem occursIn_closeUp (code : Text) : Text.occursIn spacedBrackets (closeUp code) = false := by
  fun_induction closeUp code with
  | case1 code spaced ih => exact ih
  | case2 code plain => simpa using plain

example : closeUp "a<b<c<d> > > >" = "a<b<c<d>>>>" := by decide +kernel

/-- A template over a character type, and whether it takes an allocator after the traits. -/
structure CharTemplate where
  name : Text
  allocated : Bool
  deriving DecidableEq, Repr

/-- The templates with a short name, in the order in which they are folded. -/
def charTemplates : List CharTemplate :=
  [⟨"ios", false⟩, ⟨"streambuf", false⟩, ⟨"istream", false⟩, ⟨"ostream", false⟩,
    ⟨"iostream", false⟩, ⟨"ifstream", false⟩, ⟨"ofstream", false⟩, ⟨"fstream", false⟩,
    ⟨"istringstream", true⟩, ⟨"ostringstream", true⟩, ⟨"stringstream", true⟩,
    ⟨"string", true⟩]

/-- The character types, each with what its short names begin with. -/
def charTypes : List (Text × Text) := [("char", ""), ("wchar_t", "w")]

/-- The full name of a template over a character type, its default arguments written out. -/
def CharTemplate.fullName (template : CharTemplate) (charType : Text) : Text :=
  "basic_" ++ template.name ++ "<" ++ charType ++ ", char_traits<" ++ charType ++ ">" ++
    (if template.allocated then ", allocator<" ++ charType ++ ">" else []) ++ ">"

/-- Full and short names, in the order in which they are folded. -/
def charTypedefs : List (Text × Text) :=
  charTemplates.flatMap fun template =>
    charTypes.map fun charType => (template.fullName charType.1, charType.2 ++ template.name)

def foldCharTypedefs (code : Text) : Text :=
  charTypedefs.foldl (fun code names => Text.replaceAll names.1 names.2 code) code

example : charTypedefs.length = 24 := by decide

example : foldCharTypedefs "basic_string<wchar_t, char_traits<wchar_t>, allocator<wchar_t>> s" =
    "wstring s" := by decide +kernel

/-- A container template and the templates whose instances are its default arguments. -/
structure Container where
  name : Text
  defaults : List Text
  deriving DecidableEq, Repr

/-- The containers known, in the order in which they are treated. -/
def containers : List Container :=
  [⟨"vector", ["allocator"]⟩, ⟨"list", ["allocator"]⟩, ⟨"queue", ["deque"]⟩,
    ⟨"deque", ["allocator"]⟩, ⟨"stack", ["deque"]⟩, ⟨"set", ["less", "allocator"]⟩]

namespace Container

/-- The container of an element type, without default arguments. -/
def shortName (container : Container) (element : Text) : Text :=
  container.name ++ "<" ++ element ++ ">"

/-- A further argument of a container: the instance of a template for the element type. -/
def defaultArgument (element template : Text) : Text := ", " ++ template ++ "<" ++ element ++ ">"

/-- The container of an element type with its default arguments written out. -/
def fullName (container : Container) (element : Text) : Text :=
  container.name ++ "<" ++ element ++ container.defaults.flatMap (defaultArgument element) ++ ">"

/-- The roundabout name of the element type. -/
def valueType (container : Container) (element : Text) : Text :=
  "typename " ++ container.shortName element ++ "::value_type"

/-- The element type at the first occurrence of the container: its first argument, if one more
follows. The character behind the name is taken for the bracket, whichever ASCII character it
is. -/
def element? (container : Container) (code : Text) : Option Text :=
  match Text.cut? container.name code with
  | some (_, bracket :: arguments) =>
    if bracket.toNat < 128 then (argumentFrom? 0 arguments).map Text.trim else none
  | _ => none

/-- Drops the default arguments for the element type found, and writes that type for its
roundabout name. -/
def dropDefaults (container : Container) (code : Text) : Text :=
  match container.element? code with
  | none => code
  | some element =>
    Text.replaceAll (container.valueType element) element
      (Text.replaceAll (container.fullName element) (container.shortName element) code)

theorem dropDefaults_of_not_occursIn {container : Container} {code : Text}
    (absent : Text.occursIn container.name code = false) :
    container.dropDefaults code = code := by
  have none_found : Text.cut? container.name code = none := by
    simpa [Text.occursIn] using absent
  simp [dropDefaults, element?, none_found]

end Container

/-- Drops the default arguments of every container, one container after the other. -/
def dropDefaultArguments (code : Text) : Text :=
  containers.foldl (fun code container => container.dropDefaults code) code

example : dropDefaultArguments "f(set<int, less<int>, allocator<int>>)" = "f(set<int>)" := by
  decide +kernel

/-- The level from which code is simplified. -/
def codeLevel : Nat := 1

/-- The level from which system headers and the boost libraries are hidden. -/
def libraryLevel : Nat := 2

/-- The level from which long lines are filled. -/
def fillLevel : Nat := 3

/-- Carries out the bindings of the first clause in a fragment without its clauses. -/
def carryOutBindings (code : Text) : Text :=
  substitute (bindings code) (Text.trim (removeClauses code))

/-- What is done to a fragment at level 1, in this order. -/
def shortenStandardNames (code : Text) : Text :=
  dropDefaultArguments <| foldCharTypedefs <| Text.removeAll "__gnu_cxx::" <|
    Text.removeAll "std::" <| closeUp code

def removeBoostQualifiers (code : Text) : Text :=
  Text.removeAll "boost::" (Text.removeAll "boost::detail::" code)

/-- A fragment of code at a given level of simplification. -/
def simplifyFragment (level : Nat) (code : Text) : Text :=
  let shortened :=
    if codeLevel ≤ level then shortenStandardNames (carryOutBindings code) else code
  if libraryLevel ≤ level then removeBoostQualifiers shortened else shortened

@[simp] theorem simplifyFragment_zero (code : Text) : simplifyFragment 0 code = code := rfl

theorem simplifyFragment_one (code : Text) :
    simplifyFragment 1 code = shortenStandardNames (carryOutBindings code) := rfl

theorem simplifyFragment_of_le {level : Nat} (code : Text) (high : libraryLevel ≤ level) :
    simplifyFragment level code =
      removeBoostQualifiers (shortenStandardNames (carryOutBindings code)) := by
  have low : codeLevel ≤ level := Nat.le_trans (by decide) high
  simp [simplifyFragment, low, high]

example : simplifyFragment 1 "void f(T) [with T = std::vector<int, std::allocator<int> >]" =
    "void f(vector<int>)" := by decide +kernel

end CompilerFront.Simplify
