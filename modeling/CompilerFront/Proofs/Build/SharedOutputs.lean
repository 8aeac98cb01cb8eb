import CompilerFront.Proofs.Build.LexerRuns
import CompilerFront.Proofs.Path.NewExtension

set_option autoImplicit false

namespace CompilerFront.Build

open Session

/-- Lexer inputs whose outputs are one file: they lie in one directory and have one stem. Where the
extension leaves `..` of one of them, which nothing is added to, so it must of the other. -/
structure Twins (first second : Path) : Prop where
  directory : first.directory = second.directory
  stem : first.stem? = second.stem?
  losesName : first.LosesName ↔ second.LosesName

instance (first second : Path) : Decidable (Twins first second) :=
  decidable_of_iff
    (first.directory = second.directory ∧ first.stem? = second.stem? ∧
      (first.LosesName ↔ second.LosesName))
    ⟨fun alike => ⟨alike.1, alike.2.1, alike.2.2⟩,
      fun twins => ⟨twins.directory, twins.stem, twins.losesName⟩⟩

theorem toLower_of_ofExtension {extension : Text}
    (lexer : SourceKind.ofExtension extension = .lexer) : Text.toLower extension = "l" := by
  unfold SourceKind.ofExtension at lexer
  split at lexer
  · rename_i entry found
    have listed := List.mem_of_find?_eq_some found
    have matched := List.find?_some found
    simp only [SourceKind.extensions, List.mem_cons, List.not_mem_nil, or_false] at listed
    rcases listed with rfl | rfl | rfl | rfl
    · cases lexer
    · cases lexer
    · cases lexer
    · simpa using matched
  · cases lexer

/-- A lexer input has a file name, with an extension that is an `l` in one case or the other. -/
theorem exists_name_of_isLexerInput {path : Path} (lexer : path.isLexerInput = true) :
    ∃ stem extension, path.fileName? = some (stem ++ '.' :: extension) ∧ stem ≠ [] ∧
      path.stem? = some stem ∧ path.extension? = some extension ∧
        Text.toLower extension = "l" := by
  have isLexer : path.kind = .lexer := by simpa [Path.isLexerInput] using lexer
  unfold Path.kind at isLexer
  cases present : path.extension? with
  | none =>
      rw [present] at isLexer
      cases isLexer
  | some extension =>
      rw [present] at isLexer
      obtain ⟨name, named, cut⟩ := Option.bind_eq_some_iff.mp present
      rcases Path.splitName_cases name with whole | ⟨stem, found, rfl, -, parts⟩
      · rw [whole] at cut
        cases cut
      · have solid := Path.splitName_stem_ne_nil (Path.body_of_fileName? named).1
        have stemmed := Path.stem?_eq named
        rw [parts] at cut solid stemmed
        cases cut
        exact ⟨stem, extension, named, solid, stemmed, rfl, toLower_of_ofExtension isLexer⟩

theorem components_generatedFile {path : Path} {stem : Text} (lexer : path.isLexerInput = true)
    (stemmed : path.stem? = some stem) :
    (generatedFile path).components =
      path.directory ++ [if path.LosesName then .up else .name (stem ++ ".c")] := by
  obtain ⟨found, extension, named, solid, stem_eq, -⟩ := exists_name_of_isLexerInput lexer
  rw [stemmed, Option.some.injEq] at stem_eq
  subst stem_eq
  rw [generatedFile, Path.components_withExtension named (by decide),
    Path.componentsIn_pieceUnder stemmed solid (by decide)]
  rfl

/-- Two lexer inputs have one output exactly if they are twins. -/
theorem generatedFile_same_iff {first second : Path} (firstLexer : first.isLexerInput = true)
    (secondLexer : second.isLexerInput = true) :
    (generatedFile first).same (generatedFile second) = true ↔ Twins first second := by
  obtain ⟨stem, -, -, solid, stemmed, -⟩ := exists_name_of_isLexerInput firstLexer
  obtain ⟨other, -, -, otherSolid, otherStemmed, -⟩ := exists_name_of_isLexerInput secondLexer
  rw [Path.same_iff, components_generatedFile firstLexer stemmed,
    components_generatedFile secondLexer otherStemmed, List.append_singleton_inj]
  constructor
  · rintro ⟨directory, last⟩
    by_cases lost : first.LosesName
    · by_cases otherLost : second.LosesName
      · exact ⟨directory, lost.1.trans otherLost.1.symm, iff_of_true lost otherLost⟩
      · rw [if_pos lost, if_neg otherLost] at last
        cases last
    · by_cases otherLost : second.LosesName
      · rw [if_neg lost, if_pos otherLost] at last
        cases last
      · rw [if_neg lost, if_neg otherLost, Path.Component.name.injEq, List.append_left_inj] at last
        exact ⟨directory, by rw [stemmed, otherStemmed, last], iff_of_false lost otherLost⟩
  · intro twins
    have same := twins.stem
    rw [stemmed, otherStemmed, Option.some.injEq] at same
    simp only [twins.directory, same, twins.losesName, and_self]

/-- Twins at different places differ in their extensions, and so in the letter case of them. -/
theorem Twins.extension?_ne {first second : Path} (twins : Twins first second)
    (firstLexer : first.isLexerInput = true) (secondLexer : second.isLexerInput = true)
    (apart : first.same second = false) : first.extension? ≠ second.extension? := by
  obtain ⟨stem, extension, named, -, stemmed, present, -⟩ := exists_name_of_isLexerInput firstLexer
  obtain ⟨other, further, otherNamed, -, otherStemmed, otherPresent, -⟩ :=
    exists_name_of_isLexerInput secondLexer
  intro alike
  have sameStem := twins.stem
  rw [stemmed, otherStemmed, Option.some.injEq] at sameStem
  rw [present, otherPresent, Option.some.injEq] at alike
  have same : first.same second = true := by
    rw [Path.same_iff, Path.components_of_fileName? named, Path.components_of_fileName? otherNamed,
      twins.directory, sameStem, alike]
  rw [same] at apart
  cases apart

variable (build : Build)

/-- If no lexer run fails, the lexer generator is run once for each place of an input, and what it
writes is among the sources for the compiler. Two runs are given one output exactly if their inputs
are twins, which then differ in the letter case of their extensions and in nothing else. -/
theorem replaceLexerInputs_outputs (machine : Machine) (past : List Request)
    (success : ∀ exchange ∈ exchanges (play machine past build.replaceLexerInputs).1,
      exchange.2.succeeded = true) :
    ∃ inputs sources : List Path,
      Path.Firsts (build.config.sources.filter (·.isLexerInput)) inputs ∧
      requests (play machine past build.replaceLexerInputs).1 =
        inputs.map (fun input =>
          .capture (Command.lexer build.toolchain input (generatedFile input))) ∧
      (play machine past build.replaceLexerInputs).2 = .ok sources ∧
      (∀ input ∈ inputs, input.extension?.map Text.toLower = some "l".toList ∧
        ∃ source ∈ sources, source.same (generatedFile input) = true) ∧
      inputs.Pairwise fun first second =>
        ((generatedFile first).same (generatedFile second) = true ↔ Twins first second) ∧
          (Twins first second → first.extension? ≠ second.extension?) := by
  have played := build.play_replaceLexerInputs_of_success machine past success
  have lexers : ∀ input ∈ lexerInputs build.config.sources, input.isLexerInput = true :=
    fun input inside => (isLexerInput_of_mem_lexerInputs inside).2
  refine ⟨lexerInputs build.config.sources, compilerSources build.config.sources,
    Path.firsts_iff.mpr rfl, played.1, played.2, fun input inside => ⟨?_, ?_⟩, ?_⟩
  · obtain ⟨stem, extension, -, -, -, present, lower⟩ :=
      exists_name_of_isLexerInput (lexers input inside)
    rw [present, ← lower]
    rfl
  · exact List.countP_pos_iff.mp (countP_newOutputs_pos (List.mem_map_of_mem inside))
  · refine (Path.distinct_pairwise _).imp_of_mem fun {first second} one two apart => ?_
    exact ⟨generatedFile_same_iff (lexers first one) (lexers second two),
      fun twins => twins.extension?_ne (lexers first one) (lexers second two) apart⟩

theorem replaceLexerInputs_outputs_of_silence :
    let build := ofSources [⟨"d//scan.l"⟩, ⟨"scan.l"⟩, ⟨"d/scan.L/"⟩]
    let course := play (fun _ _ => .ended .success [] []) [] build.replaceLexerInputs
    (∀ exchange ∈ exchanges course.1, exchange.2.succeeded = true) ∧
      requests course.1 =
        [build.lexerRequest ⟨"d//scan.l"⟩, build.lexerRequest ⟨"scan.l"⟩,
          build.lexerRequest ⟨"d/scan.L/"⟩] ∧
      course.2 = .ok [⟨"d//scan.c"⟩, ⟨"scan.c"⟩] ∧
      (generatedFile ⟨"d//scan.l"⟩).same (generatedFile ⟨"d/scan.L/"⟩) = true ∧
      (generatedFile ⟨"d//scan.l"⟩).same (generatedFile ⟨"scan.l"⟩) = false := by
  intro build course
  have success : ∀ exchange ∈ exchanges course.1, exchange.2.succeeded = true := by decide
  obtain ⟨inputs, sources, firstInputs, asked, -, -, decided⟩ :=
    build.replaceLexerInputs_outputs (fun _ _ => .ended .success [] []) [] success
  have inputs_eq : inputs = [⟨"d//scan.l"⟩, ⟨"scan.l"⟩, ⟨"d/scan.L/"⟩] := by
    rw [Path.firsts_iff.mp firstInputs]
    decide
  rw [inputs_eq] at asked decided
  simp only [List.pairwise_cons, List.mem_cons, List.not_mem_nil, or_false, forall_eq_or_imp,
    forall_eq] at decided
  obtain ⟨⟨⟨apart, -⟩, ⟨together, -⟩⟩, -⟩ := decided
  refine ⟨success, asked, by decide, together.mpr ?_, ?_⟩
  · decide
  · rw [Bool.eq_false_iff, ne_eq, apart]
    decide

/-- Two inputs that differ in the case of their extensions are written to one file, the second over
the first, and nothing of the first is compiled. -/
theorem replaceLexerInputs_caseTwins :
    let build := ofSources [⟨"scan.l"⟩, ⟨"scan.L"⟩]
    let course := play (fun _ _ => .ended .success [] []) [] build.replaceLexerInputs
    (∀ exchange ∈ exchanges course.1, exchange.2.succeeded = true) ∧
      requests course.1 =
        [.capture ⟨"flex", ["-o", "scan.c", "scan.l"]⟩,
          .capture ⟨"flex", ["-o", "scan.c", "scan.L"]⟩] ∧
      course.2 = .ok [⟨"scan.c"⟩] ∧
      ¬ (lexerInputs build.config.sources).Pairwise fun first second =>
        (generatedFile first).same (generatedFile second) = false := by
  decide

end CompilerFront.Build
