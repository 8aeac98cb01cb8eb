import CompilerFront.Proofs.Build.Steps

set_option autoImplicit false

/-!
The course of a build on any machine as a function of the replies that the machine gives, stage by
stage: the lexer runs, the package queries, the compiler, and what follows a success.
-/
namespace CompilerFront.Build

open Session

/-- The replies in a build: to the lexer runs, the package queries, the compiler where it is
reached, and the command that follows a success where there is one. -/
structure Stages where
  lexing : List (Path × Reply)
  queries : List (Text × Reply)
  compiling : Option Reply
  following : Option (Command × Reply)

namespace Stages

variable (stages : Stages) (build : Build)

def lexed : Bool := Attempts.allSucceeded stages.lexing

def compiled : Bool := stages.compiling.any (·.succeeded)

/-- The compiler is run on the sources without lexer inputs, with the flags of the packages. -/
def compilerCommand : Command :=
  Command.compiler build.toolchain build.config (compilerSources build.config.sources)
    (build.flagsOfQueries stages.queries)

/-- Each stage is reached only if everything before it succeeded, package queries apart. -/
structure Proper : Prop where
  lexing : Attempts (lexerInputs build.config.sources) stages.lexing
  queries : stages.queries.map Prod.fst = if stages.lexed then packages build.config else []
  compiling : stages.compiling.isSome = stages.lexed
  following : stages.following.map Prod.fst =
    if stages.compiled then Command.followUp? build.toolchain build.platform build.config
    else none

def exchanges : List (Request × Reply) :=
  stages.lexing.map (fun run => (build.lexerRequest run.1, run.2)) ++
    stages.queries.map (fun query => (build.queryRequest query.1, query.2)) ++
    stages.compiling.toList.map (fun reply => (.capture (stages.compilerCommand build), reply)) ++
    stages.following.toList.map fun started => (.interactive started.1, started.2)

/-- The requests with their replies, the program and the arguments of each captured command written
out. -/
def spelled : List (Request × Reply) :=
  let config := build.config
  let toolchain := build.toolchain
  let compiler := if config.language.isCpp then toolchain.cppCompiler else toolchain.cCompiler
  let none : List Text := []
  let symbols : List Text := ["-g"]
  let optimized : List Text := ["-O2"]
  let warned : List Text := ["-Wall", "-Wextra", "-pedantic"]
  let warnedCpp : List Text := ["-Weffc++", "-Wold-style-cast"]
  let output : List Text := ["-o", config.destination.text]
  let linked (library : Text) : List Text := ["-l", library]
  let flags := config.language.flags ++ config.passthrough ++ config.mode.flags ++
    (if config.debugSymbols then symbols else none) ++
    (if config.optimize then optimized else none) ++
    if config.warnings then warned ++ if config.language.isCpp then warnedCpp else none else none
  let files := output ++ (compilerSources config.sources).map (·.text) ++
    config.libraries.flatMap linked
  stages.lexing.map (fun (input, reply) =>
      (.capture ⟨toolchain.lexerGenerator, ["-o", (input.withExtension "c").text, input.text]⟩,
        reply)) ++
    stages.queries.map (fun (package, reply) =>
      (.capture ⟨toolchain.packageQuery, ["--cflags", "--libs", package]⟩, reply)) ++
    stages.compiling.toList.map (fun reply =>
      (.capture ⟨compiler, flags ++ build.flagsOfQueries stages.queries ++ files⟩, reply)) ++
    stages.following.toList.map fun (command, reply) => (.interactive command, reply)

theorem exchanges_eq_spelled : stages.exchanges build = stages.spelled build := rfl

def events : List Event :=
  build.ignoredEvents build.config.ignored ++ build.lexerEvents stages.lexing ++
    build.queryEvents stages.queries ++
    stages.compiling.toList.flatMap (build.compilingEvents (stages.compilerCommand build)) ++
    build.followingEvents stages.following

/-- The first lexer run that failed decides, else the compiler. -/
def result : Except BuildError Unit :=
  match Attempts.firstFailure? stages.lexing, stages.compiling with
  | some (input, reply), _ => .error (build.lexerError input reply)
  | none, some reply => compilerResult (stages.compilerCommand build).program reply
  | none, none => .ok ()

end Stages

variable (build : Build)

/-- On every machine a build takes the course that the replies call for. -/
theorem play_run (machine : Machine) (past : List Request) :
    ∃ stages : Stages, stages.Proper build ∧
      play machine past build.run = (stages.events build, stages.result build) := by
  have warned := build.play_warnIgnored machine past build.config.ignored
  obtain ⟨runs, attempts, lexed⟩ := build.play_generateAll machine
    (lexerInputs build.config.sources) build.config.sources
    (past ++ requests (build.ignoredEvents build.config.ignored))
  rw [← replaceLexerInputs, replaceEach_lexerInputs] at lexed
  rw [run, bind_eq_bind, play_bind_of_play warned, bind_eq_bind, play_bind_of_play lexed]
  -- A lexer that failed ends the build: no lookup and no compiler run follow.
  cases failure : Attempts.firstFailure? runs with
  | some run =>
      have failed : Attempts.allSucceeded runs = false := by
        rw [Bool.eq_false_iff, Ne, ← Attempts.firstFailure?_eq_none_iff, failure]
        exact Option.some_ne_none run
      refine ⟨⟨runs, [], none, none⟩, ⟨attempts, ?_, ?_, rfl⟩, ?_⟩
      · simp [Stages.lexed, failed]
      · simp [Stages.lexed, failed]
      · simp [lexerResult, failure, Stages.events, Stages.result, queryEvents, followingEvents,
          pure_eq_done]
  | none =>
      have succeeded := Attempts.firstFailure?_eq_none_iff.mp failure
      simp only [lexerResult, failure, finish_eq_bind]
      obtain ⟨queries, asked, queried⟩ := build.play_askPackages machine
        (past ++ requests (build.ignoredEvents build.config.ignored) ++
          requests (build.lexerEvents runs)) (packages build.config)
      obtain ⟨reply, following, chosen, completed⟩ := build.play_completion machine
        (past ++ requests (build.ignoredEvents build.config.ignored) ++
          requests (build.lexerEvents runs) ++ requests (build.queryEvents queries))
        (Command.compiler build.toolchain build.config (compilerSources build.config.sources)
          (build.flagsOfQueries queries))
      refine ⟨⟨runs, queries, some reply, following⟩, ⟨attempts, ?_, ?_, chosen⟩, ?_⟩
      · simp [Stages.lexed, succeeded, asked]
      · simp [Stages.lexed, succeeded]
      · simp only [play_bind_of_play queried, completed]
        simp [Stages.events, Stages.result, failure, Stages.compilerCommand]

theorem exchanges_events (stages : Stages) :
    Session.exchanges (stages.events build) = stages.exchanges build := by
  simp only [Stages.events, Stages.exchanges, exchanges_append, exchanges_ignoredEvents,
    exchanges_lexerEvents, exchanges_queryEvents, exchanges_followingEvents, List.nil_append]
  cases stages.compiling with
  | none => rfl
  | some reply =>
      simp [exchanges_compilingEvents]

theorem followUp?_isSome_iff :
    (Command.followUp? build.toolchain build.platform build.config).isSome = true ↔
      build.config.mode ∈ [Mode.execute, .debug, .memcheck] := by
  rw [Command.followUp?_isSome]
  cases build.config.mode <;> decide

/-- A build succeeds exactly if all its lexer runs and its compiler run do. -/
theorem Stages.result_eq_ok_iff {build : Build} {stages : Stages} (proper : stages.Proper build) :
    stages.result build = .ok () ↔ stages.lexed = true ∧ stages.compiled = true := by
  have reached := proper.compiling
  unfold Stages.result Stages.compiled
  cases failure : Attempts.firstFailure? stages.lexing with
  | some run =>
      have failed : stages.lexed ≠ true := by
        rw [Stages.lexed, Ne, ← Attempts.firstFailure?_eq_none_iff, failure]
        exact Option.some_ne_none run
      simp [failed]
  | none =>
      have lexed : stages.lexed = true := Attempts.firstFailure?_eq_none_iff.mp failure
      cases compiling : stages.compiling with
      | none =>
          rw [compiling, lexed] at reached
          cases reached
      | some reply => cases success : reply.succeeded <;> simp [compilerResult, success, lexed]

/-- Whatever the machine answers, a build asks for one lexer run for each place of a lexer input up
to the first failure; if there is none, for the packages and one compiler run; and if that
succeeds in an interactive mode, for one more command. It succeeds exactly if no lexer run and no
compiler run fails, and its error tells of the first that does. -/
theorem run_course (machine : Machine) (past : List Request) :
    ∃ (stages : Stages) (inputs : List Path),
      Session.exchanges (play machine past build.run).1 = stages.spelled build ∧
      Answered machine past (stages.spelled build) ∧
      Path.Firsts (build.config.sources.filter (·.isLexerInput)) inputs ∧
      Attempts inputs stages.lexing ∧
      stages.queries.map Prod.fst =
        (if stages.lexed then
          (if build.config.gtk then ["gtk+-2.0".toList] else []) ++
            if build.config.gtkmm then ["gtkmm-2.4".toList] else []
        else []) ∧
      stages.compiling.isSome = stages.lexed ∧
      (stages.following.isSome = true ↔
        stages.compiled = true ∧ build.config.mode ∈ [Mode.execute, .debug, .memcheck]) ∧
      (∀ started ∈ stages.following,
        Command.followUp? build.toolchain build.platform build.config = some started.1) ∧
      ((play machine past build.run).2 = .ok () ↔
        stages.lexed = true ∧ stages.compiled = true) ∧
      (∀ input reply, Attempts.firstFailure? stages.lexing = some (input, reply) →
        (play machine past build.run).2 = .error (build.lexerError input reply)) ∧
      ∀ reply, stages.compiling = some reply → reply.succeeded = false →
        (play machine past build.run).2 =
          .error (compilerError (stages.compilerCommand build).program reply) := by
  obtain ⟨stages, proper, played⟩ := build.play_run machine past
  have answered := play_answered machine build.run past
  rw [played, exchanges_events, Stages.exchanges_eq_spelled] at answered
  have chosen := proper.following
  refine ⟨stages, lexerInputs build.config.sources, ?_, answered, Path.firsts_iff.mpr rfl,
    proper.lexing, proper.queries, proper.compiling, ?_, ?_, ?_, ?_, ?_⟩
  · rw [played, exchanges_events, Stages.exchanges_eq_spelled]
  · rw [← build.followUp?_isSome_iff, ← Option.isSome_map (f := Prod.fst), chosen]
    cases stages.compiled <;> simp
  · intro started member
    rw [Option.mem_def.mp member, Option.map_some] at chosen
    split at chosen
    · exact chosen.symm
    · cases chosen
  · rw [played]
    exact Stages.result_eq_ok_iff proper
  · intro input reply failure
    rw [played]
    simp only [Stages.result, failure]
  · intro reply compiling failed
    have lexed := proper.compiling
    rw [compiling, Option.isSome_some] at lexed
    rw [played]
    simp only [Stages.result, Attempts.firstFailure?_eq_none_iff.mpr lexed.symm, compiling,
      compilerResult, failed, Bool.false_eq_true, ↓reduceIte]

end CompilerFront.Build
