import CompilerFront.Proofs.Options.Items
import CompilerFront.Task

set_option autoImplicit false

namespace CompilerFront

open Options

/-- What is asked for. The order of the switches says nothing; that of the values given to an option
that repeats, and that of the operands, is the order in which they are given. -/
structure Wishes where
  switches : List Switch
  distinct : switches.Nodup
  /-- The reference for the debugger is not asked for. -/
  building : .debuggerHelp ∉ switches
  simplify : Nat
  language : Option Text
  output : Option Text
  passthrough : List Text
  libraries : List Text
  operands : List Text

namespace Wishes

/-- Items ask for something in any order among switches, counted options, options with a value and
operands. -/
structure Arranged (wishes : Wishes) (items : List Item) : Prop where
  proper : ∀ item ∈ items, item.Proper
  switches : (items.filterMap Item.switch?).Perm wishes.switches
  simplify : items.countP Item.isSimplify = wishes.simplify
  language : valuesOf .language items = wishes.language.toList
  output : valuesOf .output items = wishes.output.toList
  passthrough : valuesOf .passthrough items = wishes.passthrough
  libraries : valuesOf .library items = wishes.libraries
  operands : items.filterMap Item.operand? = wishes.operands

/-- A mode under the names of its options, if it is asked for. -/
def asked (wishes : Wishes) (given : Switch) (names : Text) (mode : Mode) : List (Text × Mode) :=
  if given ∈ wishes.switches then [(names, mode)] else []

/-- The modes asked for, in the order in which an error lists them. -/
def chosen (wishes : Wishes) : List (Text × Mode) :=
  wishes.asked .compile "-c/--compile" .compile ++
    wishes.asked .execute "-e" .execute ++
    wishes.asked .assembly "-S/--compile-proper" .assembly ++
    wishes.asked .debug "-g/--debug" .debug ++
    wishes.asked .preprocess "-E/--preprocess" .preprocess ++
    wishes.asked .memcheck "--valgrind" .memcheck ++
    wishes.asked .shared "-s/--shared" .shared

def mode (wishes : Wishes) : Mode :=
  match wishes.chosen with
  | [] => .link
  | (_, mode) :: _ => mode

def sources (wishes : Wishes) (exists? : Path → Bool) : List Path :=
  (wishes.operands.filter fun operand => exists? ⟨operand⟩).map Path.mk

def languageFor (wishes : Wishes) (sources : List Path) : Language :=
  if .cpp0x ∈ wishes.switches ∨ .cpp1x ∈ wishes.switches then .cpp11
  else
    match wishes.language with
    | some name => .ofName name
    | none => .ofFiles sources

def destination (wishes : Wishes) (platform : Platform) (first : Path) : Path :=
  match wishes.output with
  | some path => ⟨path⟩
  | none => first.withExtension (wishes.mode.extension platform)

def config (wishes : Wishes) (exists? : Path → Bool) (platform : Platform) (first : Path) :
    Config :=
  { mode := wishes.mode
    language := wishes.languageFor (wishes.sources exists?)
    sources := wishes.sources exists?
    destination := wishes.destination platform first
    optimize := .optimize ∈ wishes.switches
    debugSymbols := wishes.mode = .debug ∨ wishes.mode = .memcheck
    warnings := .quiet ∉ wishes.switches
    colour := .plainColours ∉ wishes.switches
    verbose := .verbose ∈ wishes.switches
    level := min 255 wishes.simplify
    passthrough := wishes.passthrough.flatMap Text.words
    libraries := wishes.libraries
    gtk := .gtk ∈ wishes.switches
    gtkmm := .gtkmm ∈ wishes.switches
    programArguments := []
    ignored := wishes.operands.filter fun operand => !exists? ⟨operand⟩ }

/-- Two modes are refused whatever files there are; without a file there is nothing to build. -/
def answer (wishes : Wishes) (exists? : Path → Bool) (platform : Platform) :
    Except Refusal Task :=
  if 2 ≤ wishes.chosen.length then
    .error (.task (.conflictingModes (wishes.chosen.map Prod.fst)))
  else
    match wishes.sources exists? with
    | [] => .error (.task (.noInputFiles wishes.operands))
    | first :: _ => .ok (.build (wishes.config exists? platform first))

variable {wishes : Wishes} {items : List Item}

theorem Arranged.once (arranged : wishes.Arranged items) : Once items := by
  constructor
  · exact arranged.switches.nodup_iff.mpr wishes.distinct
  · intro option single
    cases option with
    | language =>
        rw [arranged.language]
        cases wishes.language <;> simp
    | output =>
        rw [arranged.output]
        cases wishes.output <;> simp
    | passthrough => cases single
    | library => cases single

theorem Arranged.has (arranged : wishes.Arranged items) (given : Switch) :
    (ofItems items).has given = decide (given ∈ wishes.switches) := by
  have same := arranged.switches.mem_iff (a := given)
  simp only [Options.has, ofItems, List.contains_eq_mem, same]

theorem Arranged.modes (arranged : wishes.Arranged items) :
    (ofItems items).modes = wishes.chosen := by
  have first (entry : Switch × Text × Mode) (later : List (Switch × Text × Mode)) :
      ((entry :: later).filter fun entry => (ofItems items).has entry.1).map (·.2) =
        wishes.asked entry.1 entry.2.1 entry.2.2 ++
          (later.filter fun entry => (ofItems items).has entry.1).map (·.2) := by
    rw [List.filter_cons, arranged.has, asked]
    by_cases given : entry.1 ∈ wishes.switches <;> simp [given]
  simp only [Options.modes, modeSwitches, first, chosen, List.filter_nil, List.map_nil,
    List.append_nil, List.append_assoc]

theorem Arranged.mode (arranged : wishes.Arranged items) :
    (ofItems items).mode =
      if 2 ≤ wishes.chosen.length then .error (.conflictingModes (wishes.chosen.map Prod.fst))
      else .ok wishes.mode := by
  unfold Options.mode Wishes.mode
  rw [arranged.modes]
  rcases wishes.chosen with _ | ⟨one, _ | ⟨two, more⟩⟩
  · rfl
  · rfl
  · simp

theorem Arranged.languageFor (arranged : wishes.Arranged items) (sources : List Path) :
    (ofItems items).languageFor sources = wishes.languageFor sources := by
  have named : (ofItems items).language = wishes.language.map .ofName := by
    simp [ofItems, arranged.language]
  unfold Options.languageFor Wishes.languageFor
  rw [arranged.has, arranged.has, named]
  cases wishes.language <;> simp

theorem Arranged.destination (arranged : wishes.Arranged items) (platform : Platform)
    (first : Path) :
    wishes.mode.destination platform (ofItems items).output first =
      wishes.destination platform first := by
  have requested : (ofItems items).output = wishes.output.map Path.mk := by
    simp [ofItems, arranged.output]
  unfold Wishes.destination
  rw [requested]
  cases wishes.output <;> rfl

theorem ignored_of_sources_eq_nil {exists? : Path → Bool} (none : wishes.sources exists? = []) :
    wishes.operands.filter (fun operand => !exists? ⟨operand⟩) = wishes.operands := by
  rw [List.filter_eq_self]
  intro operand inside
  have absent := List.filter_eq_nil_iff.mp (List.map_eq_nil_iff.mp none) operand inside
  simpa using absent

theorem Arranged.configure (arranged : wishes.Arranged items) (exists? : Path → Bool)
    (platform : Platform) :
    (ofItems items).configure exists? platform [] =
      if 2 ≤ wishes.chosen.length then .error (.conflictingModes (wishes.chosen.map Prod.fst))
      else
        match wishes.sources exists? with
        | [] => .error (.noInputFiles wishes.operands)
        | first :: _ => .ok (wishes.config exists? platform first) := by
  have operands : (ofItems items).operands = wishes.operands := arranged.operands
  unfold Options.configure
  rw [arranged.mode, operands]
  by_cases several : 2 ≤ wishes.chosen.length
  · rw [if_pos several, if_pos several]
    rfl
  · rw [if_neg several, if_neg several]
    have given : (wishes.operands.filter fun operand => exists? ⟨operand⟩).map Path.mk =
        wishes.sources exists? := rfl
    simp only [given, bind, Except.bind]
    cases found : wishes.sources exists? with
    | nil =>
        simp only [ignored_of_sources_eq_nil found]
        rfl
    | cons first rest =>
        have passed : (ofItems items).passthrough = wishes.passthrough := arranged.passthrough
        have linked : (ofItems items).libraries = wishes.libraries := arranged.libraries
        have level : (ofItems items).simplify = min 255 wishes.simplify := by
          simp [ofItems, arranged.simplify]
        simp [pure, Except.pure, Wishes.config, found, arranged.has, arranged.languageFor,
          arranged.destination, passed, linked, level, Mode.needsSymbols]

/-- In whatever order its items come, a command line is given the answer to what it asks for. -/
theorem ofArguments_of_arranged (arranged : wishes.Arranged items) (exists? : Path → Bool)
    (platform : Platform) (name : Text) :
    Task.ofArguments exists? platform (name :: items.flatMap Item.arguments) =
      wishes.answer exists? platform := by
  have absent : separator ∉ items.flatMap Item.arguments := by
    rw [List.mem_flatMap]
    rintro ⟨item, inside, found⟩
    exact separator_not_mem_arguments (arranged.proper item inside) found
  have noHelp : (ofItems items).has .debuggerHelp = false := by
    simpa [arranged.has] using wishes.building
  unfold Task.ofArguments
  rw [splitArguments_of_not_mem absent]
  simp only [List.drop_succ_cons, List.drop_zero, parse_items arranged.proper arranged.once,
    noHelp, arranged.configure, Wishes.answer, Bool.false_eq_true, if_false]
  by_cases several : 2 ≤ wishes.chosen.length
  · rw [if_pos several, if_pos several]
  · rw [if_neg several, if_neg several]
    cases wishes.sources exists? <;> rfl

/-- Running a program built of one file, with all kinds of options. -/
def running : Wishes :=
  { switches := [.execute, .optimize], distinct := by decide, building := by decide
    simplify := 2, language := some "c99", output := some "-", passthrough := ["-c -Wall", "-e"]
    libraries := ["m"], operands := ["gone.c", "a.c"] }

def runningItems : List Item :=
  [.operand "gone.c", .value .passthrough "-p" "-c -Wall", .switch .optimize "--optimize",
    .simplify "-b", .operand "a.c", .value .output "-o" "-", .value .passthrough "-p" "-e",
    .switch .execute "-e", .value .language "--lang" "c99", .simplify "--beautify",
    .value .library "-l" "m"]

def undecided : Wishes :=
  { switches := [.shared, .verbose, .compile, .debug], distinct := by decide, building := by decide
    simplify := 0, language := none, output := none, passthrough := [], libraries := []
    operands := ["gone.c"] }

def undecidedItems : List Item :=
  [.switch .debug "--debug", .operand "gone.c", .switch .shared "-s", .switch .verbose "-v",
    .switch .compile "--compile"]

/-- The values of the pass-through option are neither modes nor items of their own; several modes are
refused in the order of the table, although there is no source. -/
theorem ofArguments_runningItems :
    (running.Arranged runningItems ∧
      Task.ofArguments (fun path => path.text = "a.c".toList) .unix
          ("ccwrap" :: runningItems.flatMap Item.arguments) =
        .ok (.build
          { mode := .execute, language := .c99, sources := [⟨"a.c"⟩], destination := ⟨"-"⟩
            optimize := true, debugSymbols := false, warnings := true, colour := true
            verbose := false, level := 2, passthrough := ["-c", "-Wall", "-e"]
            libraries := ["m"], gtk := false, gtkmm := false, programArguments := []
            ignored := ["gone.c"] })) ∧
    undecided.Arranged undecidedItems ∧
      Task.ofArguments (fun _ => false) .unix
          ("ccwrap" :: undecidedItems.flatMap Item.arguments) =
        .error (.task (.conflictingModes ["-c/--compile", "-g/--debug", "-s/--shared"])) := by
  have arranged : running.Arranged runningItems :=
    { proper := by decide +kernel
      switches := by decide
      simplify := rfl
      language := rfl
      output := rfl
      passthrough := rfl
      libraries := rfl
      operands := rfl }
  have arrangedModes : undecided.Arranged undecidedItems :=
    { proper := by decide +kernel
      switches := by decide
      simplify := rfl
      language := rfl
      output := rfl
      passthrough := rfl
      libraries := rfl
      operands := rfl }
  refine ⟨⟨arranged, ?_⟩, arrangedModes, ?_⟩
  · rw [ofArguments_of_arranged arranged]
    decide +kernel
  · rw [ofArguments_of_arranged arrangedModes]
    decide +kernel

end Wishes

end CompilerFront
