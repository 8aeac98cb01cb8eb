import CompilerFront.Proofs.Build.LexerSources
import CompilerFront.Proofs.Session

set_option autoImplicit false

namespace CompilerFront

/-- The items of a list with the replies to what was asked for them, up to the first reply that is
no success. -/
inductive Attempts {α : Type} : List α → List (α × Reply) → Prop
  | done : Attempts [] []
  | failed {item : α} {items : List α} {reply : Reply} (failure : reply.succeeded = false) :
      Attempts (item :: items) [(item, reply)]
  | succeeded {item : α} {items : List α} {reply : Reply} {made : List (α × Reply)}
      (success : reply.succeeded = true) (rest : Attempts items made) :
      Attempts (item :: items) ((item, reply) :: made)

namespace Attempts

variable {α : Type} {items : List α} {made : List (α × Reply)}

def allSucceeded (made : List (α × Reply)) : Bool := made.all (·.2.succeeded)

def firstFailure? (made : List (α × Reply)) : Option (α × Reply) :=
  made.find? (!·.2.succeeded)

theorem map_fst_of_allSucceeded (attempts : Attempts items made)
    (success : allSucceeded made = true) : made.map Prod.fst = items := by
  induction attempts with
  | done => rfl
  | failed failure => simp [allSucceeded, failure] at success
  | @succeeded item items reply made first rest ih =>
      have others : allSucceeded made = true := by simpa [allSucceeded, first] using success
      rw [List.map_cons, ih others]

theorem firstFailure?_eq_none_iff :
    firstFailure? made = none ↔ allSucceeded made = true := by
  simp [firstFailure?, allSucceeded]

end Attempts

namespace Build

open Session

variable (build : Build)

def lexerRequest (input : Path) : Request :=
  .capture (Command.lexer build.toolchain input (generatedFile input))

def lexerError (input : Path) : Reply → BuildError
  | .notStarted reason => .notStarted build.toolchain.lexerGenerator reason
  | .ended outcome stdout stderr =>
      .lexer build.toolchain.lexerGenerator input outcome (build.printed stdout stderr)

/-- What comes of lexer runs: the first failure, or the sources without their inputs. -/
def lexerResult (sources : List Path) (runs : List (Path × Reply)) :
    Except BuildError (List Path) :=
  match Attempts.firstFailure? runs with
  | some (input, reply) => .error (build.lexerError input reply)
  | none => .ok sources

def lexerEvents (runs : List (Path × Reply)) : List Event :=
  runs.map fun run => .asked (build.lexerRequest run.1) run.2

theorem generated_of_succeeded {input : Path} {reply : Reply} (success : reply.succeeded = true) :
    build.generated input reply = .ok () :=
  generated_eq_ok_iff.mpr (Reply.succeeded_iff.mp success)

theorem generated_of_failed {input : Path} {reply : Reply} (failure : reply.succeeded = false) :
    build.generated input reply = .error (build.lexerError input reply) := by
  cases reply with
  | notStarted reason => rfl
  | ended outcome stdout stderr => cases outcome <;> first | rfl | cases failure

/-- On every machine the inputs are tried one after the other up to the first failure. -/
theorem play_generateAll (machine : Machine) (inputs sources : List Path) (past : List Request) :
    ∃ runs, Attempts inputs runs ∧
      play machine past (build.generateAll sources inputs) =
        (build.lexerEvents runs, build.lexerResult (replaceEach sources inputs) runs) := by
  induction inputs generalizing sources past with
  | nil => exact ⟨[], .done, rfl⟩
  | cons input rest ih =>
      rw [generateAll_cons, play]
      generalize machine past (.capture _) = reply
      cases success : reply.succeeded with
      | false =>
          refine ⟨[(input, reply)], .failed success, ?_⟩
          rw [build.generated_of_failed success]
          simp [lexerEvents, lexerRequest, lexerResult, Attempts.firstFailure?, success]
      | true =>
          obtain ⟨runs, attempts, played⟩ :=
            ih (replaceInput sources input (generatedFile input)) (past ++ [build.lexerRequest input])
          refine ⟨(input, reply) :: runs, .succeeded success attempts, ?_⟩
          have skipped : Attempts.firstFailure? ((input, reply) :: runs) =
              Attempts.firstFailure? runs := by
            simp [Attempts.firstFailure?, success]
          have step : replaceEach sources (input :: rest) =
              replaceEach (replaceInput sources input (generatedFile input)) rest := rfl
          rw [build.generated_of_succeeded success]
          simp only [lexerResult, skipped, step]
          rw [lexerRequest] at played
          simp only [played]
          rfl

theorem exchanges_lexerEvents (runs : List (Path × Reply)) :
    exchanges (build.lexerEvents runs) =
      runs.map fun run => (build.lexerRequest run.1, run.2) := by
  induction runs with
  | nil => rfl
  | cons run rest ih => exact congrArg ((build.lexerRequest run.1, run.2) :: ·) ih

theorem requests_lexerEvents (runs : List (Path × Reply)) :
    requests (build.lexerEvents runs) = (runs.map Prod.fst).map build.lexerRequest := by
  rw [← map_fst_exchanges, exchanges_lexerEvents, List.map_map, List.map_map]
  rfl

/-- If no lexer run fails, there is one for each input, and the compiler gets the plain sources and
what was generated. -/
theorem play_replaceLexerInputs_of_success (machine : Machine) (past : List Request)
    (success : ∀ exchange ∈ exchanges (play machine past build.replaceLexerInputs).1,
      exchange.2.succeeded = true) :
    requests (play machine past build.replaceLexerInputs).1 =
        (lexerInputs build.config.sources).map build.lexerRequest ∧
      (play machine past build.replaceLexerInputs).2 =
        .ok (compilerSources build.config.sources) := by
  obtain ⟨runs, attempts, played⟩ := build.play_generateAll machine
    (lexerInputs build.config.sources) build.config.sources past
  rw [← replaceLexerInputs] at played
  have allSucceeded : Attempts.allSucceeded runs = true := by
    rw [Attempts.allSucceeded, List.all_eq_true]
    intro run inside
    refine success (build.lexerRequest run.1, run.2) ?_
    rw [played, exchanges_lexerEvents]
    exact List.mem_map.mpr ⟨run, inside, rfl⟩
  rw [played]
  constructor
  · rw [requests_lexerEvents, attempts.map_fst_of_allSucceeded allSucceeded]
  · simp only [lexerResult, Attempts.firstFailure?_eq_none_iff.mpr allSucceeded,
      replaceEach_lexerInputs]

/-- If no lexer run fails, the lexer generator is run once for each place of an input, in the order
of the first occurrences. The compiler gets the plain sources as they are, then the generated files
without those that are there already; so each one is there, and twice only if it was listed twice. -/
theorem replaceLexerInputs_of_success (machine : Machine) (past : List Request)
    (success : ∀ exchange ∈ exchanges (play machine past build.replaceLexerInputs).1,
      exchange.2.succeeded = true) :
    ∃ inputs added : List Path,
      Path.Firsts (build.config.sources.filter (·.isLexerInput)) inputs ∧
      Path.Firsts ((inputs.map generatedFile).filter
        (isFree (plainSources build.config.sources))) added ∧
      requests (play machine past build.replaceLexerInputs).1 =
        inputs.map (fun input =>
          .capture ⟨build.toolchain.lexerGenerator,
            ["-o", (input.withExtension "c").text, input.text]⟩) ∧
      (play machine past build.replaceLexerInputs).2 =
        .ok (plainSources build.config.sources ++ added) ∧
      (∀ source ∈ plainSources build.config.sources ++ added, source.isLexerInput = false) ∧
      ∀ input ∈ inputs,
        0 < (plainSources build.config.sources ++ added).countP
          (·.same (generatedFile input)) ∧
        (1 < (plainSources build.config.sources ++ added).countP (·.same (generatedFile input)) →
          1 < build.config.sources.countP (·.same (generatedFile input))) := by
  have played := build.play_replaceLexerInputs_of_success machine past success
  refine ⟨lexerInputs build.config.sources, _, Path.firsts_iff.mpr rfl, Path.firsts_iff.mpr rfl,
    played.1, played.2, ?_, ?_⟩
  · exact compilerSources_plain build.config.sources
  · intro input inside
    refine ⟨countP_newOutputs_pos (List.mem_map_of_mem inside), fun twice => ?_⟩
    have among := countP_of_countP_newOutputs twice
    have fewer : (plainSources build.config.sources).countP (·.same (generatedFile input)) ≤
        build.config.sources.countP (·.same (generatedFile input)) :=
      List.filter_sublist.countP_le
    omega

/-- A build of some sources with nothing else asked for. -/
def ofSources (sources : List Path) : Build :=
  ⟨{ Config.blank with sources }, .standard, .unix, .plain⟩

/-- One place under two spellings, and a generated file that is listed, twice. -/
theorem replaceLexerInputs_of_silence :
    let build := ofSources [⟨"d//x.l"⟩, ⟨"y.c"⟩, ⟨"d/x.l/"⟩, ⟨"y.l"⟩, ⟨"./y.c"⟩, ⟨"y.c/"⟩]
    let course := play (fun _ _ => .ended .success [] []) [] build.replaceLexerInputs
    (∀ exchange ∈ exchanges course.1, exchange.2.succeeded = true) ∧
      requests course.1 =
        [.capture ⟨"flex", ["-o", "d//x.c", "d//x.l"]⟩, .capture ⟨"flex", ["-o", "y.c", "y.l"]⟩] ∧
      course.2 = .ok [⟨"y.c"⟩, ⟨"./y.c"⟩, ⟨"y.c/"⟩, ⟨"d//x.c"⟩] := by
  intro build course
  have success : ∀ exchange ∈ exchanges course.1, exchange.2.succeeded = true := by decide
  obtain ⟨inputs, added, firstInputs, firstOutputs, asked, result, -⟩ :=
    build.replaceLexerInputs_of_success (fun _ _ => .ended .success [] []) [] success
  have inputs_eq := Path.firsts_iff.mp firstInputs
  subst inputs_eq
  have added_eq := Path.firsts_iff.mp firstOutputs
  subst added_eq
  refine ⟨success, ?_, ?_⟩
  · refine asked.trans ?_
    decide
  · refine result.trans ?_
    decide

end Build

end CompilerFront
