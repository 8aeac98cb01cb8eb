import CompilerFront.Proofs.Build.Stages
import CompilerFront.Proofs.Options.ProgramArguments

set_option autoImplicit false

namespace CompilerFront

namespace Path

/-- The steps that a path takes; a `.` stays where it is. -/
def steps (path : Path) : List Component := path.components.filter (· ≠ .here)

theorem steps_of_relative {path : Path} (relative : path.isAbsolute = false) :
    path.steps =
      ((path.text.splitOn '/').filterMap component?).filter (· ≠ .here) := by
  obtain ⟨first, rest, shape⟩ :=
    List.exists_cons_of_ne_nil (List.splitOn_ne_nil '/' path.text)
  have once : (((rest.filterMap component?).filter (· ≠ .here)).filter (· ≠ .here)) =
      (rest.filterMap component?).filter (· ≠ .here) := by
    rw [List.filter_filter]
    simp only [Bool.and_self]
  rw [steps, components, shape, relative]
  simp only [Bool.false_eq_true, ↓reduceIte, List.filter_append, once, List.filterMap_cons]
  cases component? first with
  | none => rfl
  | some step => rw [Option.toList_some, ← List.filter_append, List.singleton_append]

theorem steps_below_here {path : Path} (relative : path.isAbsolute = false) :
    (Path.mk ("./" ++ path.text)).steps = path.steps := by
  have below : (Path.mk ("./" ++ path.text)).isAbsolute = false := rfl
  have cut : ("./" ++ path.text : Text).splitOn '/' = ['.'] :: path.text.splitOn '/' :=
    List.splitOn_append_cons_self ['.'] path.text
  rw [steps_of_relative below, steps_of_relative relative, cut]
  rfl

end Path

namespace Platform

variable {platform : Platform} (posix : platform ≠ .windows) (program : Path)

include posix

theorem text_launchPath :
    (platform.launchPath program).text =
      if program.isAbsolute then program.text else "./" ++ program.text := by
  cases absolute : program.isAbsolute with
  | true => rw [launchPath_of_isAbsolute platform absolute, if_pos rfl]
  | false => rw [launchPath_of_relative posix absolute, if_neg Bool.false_ne_true]

/-- A program is started at the place where it was written. -/
theorem steps_launchPath : (platform.launchPath program).steps = program.steps := by
  cases absolute : program.isAbsolute with
  | true => rw [launchPath_of_isAbsolute platform absolute]
  | false =>
      rw [launchPath_of_relative posix absolute]
      exact Path.steps_below_here absolute

/-- The path under which a program is started holds a separator, so that it is not searched for, and
no tool takes it for an option. -/
theorem launchPath_explicit :
    '/' ∈ (platform.launchPath program).text ∧
      (platform.launchPath program).text.head? ≠ some '-' := by
  cases absolute : program.isAbsolute with
  | true =>
      rw [launchPath_of_isAbsolute platform absolute]
      have first : program.text.head? = some '/' := of_decide_eq_true absolute
      refine ⟨List.mem_of_mem_head? first, ?_⟩
      rw [first]
      decide
  | false =>
      rw [launchPath_of_relative posix absolute]
      refine ⟨List.mem_append_left _ ?_, ?_⟩
      · decide
      · show some '.' ≠ some '-'
        decide

end Platform

namespace Build

open Session Options

/-- A request to start a command with the terminal handed over is the last one. It stands right
behind the compiler's, and everything in front of it is captured. -/
theorem requests_of_interactive {build : Build} {machine : Machine} {past : List Request}
    {command : Command}
    (started : .interactive command ∈ requests (play machine past build.run).1) :
    ∃ (earlier : List Command) (packageFlags : List Text),
      requests (play machine past build.run).1 =
        earlier.map .capture ++
          [.capture (.compiler build.toolchain build.config (compilerSources build.config.sources)
            packageFlags), .interactive command] ∧
      Command.followUp? build.toolchain build.platform build.config = some command := by
  obtain ⟨stages, proper, played⟩ := build.play_run machine past
  have asked : requests (play machine past build.run).1 =
      (stages.lexing.map fun run => build.lexerRequest run.1) ++
        (stages.queries.map fun query => build.queryRequest query.1) ++
        (stages.compiling.toList.map fun _ => .capture (stages.compilerCommand build)) ++
        stages.following.toList.map fun started => .interactive started.1 := by
    rw [played, ← map_fst_exchanges, exchanges_events, Stages.exchanges]
    simp only [List.map_append, List.map_map, Function.comp_def]
  rw [asked] at started ⊢
  have chosen := proper.following
  cases following : stages.following with
  | none =>
      rw [following] at started
      simp [lexerRequest, queryRequest] at started
  | some last =>
      have same : command = last.1 := by
        rw [following] at started
        simpa [lexerRequest, queryRequest] using started
      rw [following, Option.map_some] at chosen
      -- Something followed, so the compiler was run.
      cases compiling : stages.compiling with
      | none =>
          rw [Stages.compiled, compiling] at chosen
          cases chosen
      | some reply =>
          refine ⟨stages.lexing.map (fun run => (build.lexerRequest run.1).command) ++
            stages.queries.map (fun query => (build.queryRequest query.1).command),
            build.flagsOfQueries stages.queries, ?_, ?_⟩
          · rw [same, List.map_append, List.map_map, List.map_map]
            simp only [Option.toList_some, List.map_cons, List.map_nil, List.append_assoc]
            rfl
          · rw [same]
            split at chosen
            · exact chosen.symm
            · cases chosen

/-- Where a build starts something in the end, that is the program it has built. The compiler writes
to the operand behind the `-o` in front of the sources, and the path that is started leads to the
same place; the arguments behind it are those from behind the separator, as they are. Only the
debugger is told whether there are any. -/
theorem run_handsOver {build : Build} (posix : build.platform ≠ .windows) (machine : Machine)
    (past : List Request) {exists? : Path → Bool} {arguments own tail : List Text}
    (isOwn : IsOwnPart own)
    (cut : arguments = own ++ separator :: tail ∨ arguments = own ∧ tail = [])
    (task : Task.ofArguments exists? build.platform arguments = .ok (.build build.config))
    {command : Command}
    (started : .interactive command ∈ requests (play machine past build.run).1) :
    let operand := build.config.destination.text
    let launched : Text := if build.config.destination.isAbsolute then operand else "./" ++ operand
    (∃ (earlier : List Command) (compilation : Command) (packageFlags : List Text),
      requests (play machine past build.run).1 =
        earlier.map .capture ++ [.capture compilation, .interactive command] ∧
      compilation.arguments =
        Command.compilerFlags build.config ++ packageFlags ++ ("-o" : Text) :: operand ::
          ((compilerSources build.config.sources).map (·.text) ++
            build.config.libraries.flatMap Command.libraryArguments)) ∧
    '/' ∈ launched ∧ launched.head? ≠ some '-' ∧
    (Path.mk launched).steps = build.config.destination.steps ∧
    ((build.config.mode = .execute ∧ command = ⟨launched, tail⟩) ∨
      (build.config.mode = .debug ∧ command =
        ⟨build.toolchain.debugger,
          (if tail = [] then ([] : List Text) else ["--args"]) ++ launched :: tail⟩) ∨
      (build.config.mode = .memcheck ∧ command =
        ⟨build.toolchain.memoryChecker, launched :: tail⟩)) := by
  intro operand launched
  have path : (build.platform.launchPath build.config.destination).text = launched :=
    Platform.text_launchPath posix build.config.destination
  obtain ⟨separated, plain⟩ := Platform.launchPath_explicit posix build.config.destination
  have place := Platform.steps_launchPath posix build.config.destination
  have handed : build.config.programArguments = tail := by
    rw [Task.programArguments_eq task]
    rcases cut with rfl | ⟨rfl, rfl⟩
    · rw [splitArguments_of_isOwnPart isOwn]
    · rw [splitArguments_of_not_mem_tail isOwn.2]
  obtain ⟨earlier, packageFlags, asked, following⟩ := requests_of_interactive started
  rw [path] at separated plain
  refine ⟨⟨earlier, _, packageFlags, asked, ?_⟩, separated, plain, ?_, ?_⟩
  · simp only [Command.compiler, Command.compilerFiles, Command.outputArguments,
      List.append_assoc]
    rfl
  · rw [← path]
    exact place
  · unfold Command.followUp? at following
    rw [path, handed] at following
    cases mode : build.config.mode with
    | execute =>
        rw [mode] at following
        exact .inl ⟨rfl, (Option.some.inj following).symm⟩
    | debug =>
        rw [mode] at following
        refine .inr (.inl ⟨rfl, ?_⟩)
        rw [← Option.some.inj following]
        cases tail <;> rfl
    | memcheck =>
        rw [mode] at following
        exact .inr (.inr ⟨rfl, (Option.some.inj following).symm⟩)
    | link | compile | shared | assembly | preprocess =>
        rw [mode] at following
        cases following

/-- A program by the name of an option under the debugger, with another separator, an option and an
empty text behind the first separator. -/
theorem run_handsOver_dash :
    let config : Config :=
      { mode := .debug, language := .c, sources := [⟨"a.c"⟩], destination := ⟨"-"⟩
        optimize := false, debugSymbols := true, warnings := true, colour := true
        verbose := false, level := 0, passthrough := [], libraries := []
        gtk := false, gtkmm := false, programArguments := ["--", "-x", []]
        ignored := [] }
    let build : Build := ⟨config, .standard, .unix, .plain⟩
    let machine : Machine := fun _ _ => .ended .success [] []
    let own : List Text := ["front", "-g", "a.c", "-o", "-"]
    let tail : List Text := ["--", "-x", []]
    IsOwnPart own ∧
      Task.ofArguments (fun path => path.text = "a.c") .unix (own ++ separator :: tail) =
        .ok (.build config) ∧
      .interactive ⟨"gdb", ["--args", "./-", "--", "-x", []]⟩ ∈
        requests (play machine [] build.run).1 ∧
      (Path.mk "./-").steps = (Path.mk "-").steps := by
  intro config build machine own tail
  have isOwn : IsOwnPart own := by decide
  have task : Task.ofArguments (fun path => path.text = "a.c") .unix (own ++ separator :: tail) =
      .ok (.build config) := by decide +kernel
  have started : .interactive ⟨"gdb", ["--args", "./-", "--", "-x", []]⟩ ∈
      requests (play machine [] build.run).1 := by decide +kernel
  have posix : build.platform ≠ .windows := by decide
  obtain ⟨-, -, -, place, -⟩ :=
    run_handsOver posix machine [] isOwn (.inl rfl) task started
  exact ⟨isOwn, task, started, place⟩

end Build

end CompilerFront
