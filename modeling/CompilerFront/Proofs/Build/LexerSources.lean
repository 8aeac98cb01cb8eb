import CompilerFront.Build
import CompilerFront.Path
import CompilerFront.Proofs.Path.NewExtension
import Mathlib.Data.List.Induction

set_option autoImplicit false

namespace CompilerFront.Path

/-- The members of a list that come before every other member of their place. -/
inductive Firsts : List Path → List Path → Prop
  | nil : Firsts [] []
  | fresh {paths firsts : List Path} {path : Path} (before : Firsts paths firsts)
      (unseen : ∀ earlier ∈ paths, earlier.same path = false) :
      Firsts (paths ++ [path]) (firsts ++ [path])
  | seen {paths firsts : List Path} {path : Path} (before : Firsts paths firsts)
      (again : ∃ earlier ∈ paths, earlier.same path = true) : Firsts (paths ++ [path]) firsts

theorem same_congr_left {first second : Path} (alike : first.same second = true) (other : Path) :
    first.same other = second.same other := by
  rw [Bool.eq_iff_iff, same_iff, same_iff, same_iff.mp alike]

theorem same_congr_right {first second : Path} (alike : first.same second = true) (other : Path) :
    other.same first = other.same second := by
  rw [same_comm other, same_comm other, same_congr_left alike]

/-- Some distinct path is the same place as a path of the list. -/
theorem exists_distinct_same {path : Path} {paths : List Path} (inside : path ∈ paths) :
    ∃ first ∈ distinct paths, first.same path = true := by
  induction paths with
  | nil => cases inside
  | cons head rest ih =>
      by_cases alike : head.same path = true
      · exact ⟨head, List.mem_cons_self, alike⟩
      · have later : path ∈ rest := by
          rcases List.mem_cons.mp inside with rfl | later
          · exact absurd (same_refl path) alike
          · exact later
        obtain ⟨first, member, same⟩ := ih later
        refine ⟨first, List.mem_cons_of_mem _ (List.mem_filter.mpr ⟨member, ?_⟩), same⟩
        rw [same_congr_left same, same_comm]
        simpa using alike

/-- A condition on places may be tested before or after repetitions are dropped. -/
theorem distinct_filter (keeps : Path → Bool) (paths : List Path)
    (respects : ∀ first second : Path, first.same second = true → keeps first = keeps second) :
    distinct (paths.filter keeps) = (distinct paths).filter keeps := by
  induction paths with
  | nil => rfl
  | cons head rest ih =>
      cases kept : keeps head with
      | true =>
          rw [List.filter_cons_of_pos kept, distinct, distinct, List.filter_cons_of_pos kept, ih,
            List.filter_filter, List.filter_filter]
          congr 1
          exact List.filter_congr fun other _ => Bool.and_comm _ _
      | false =>
          have dropped : ¬ keeps head = true := by simp [kept]
          rw [List.filter_cons_of_neg dropped, distinct, List.filter_cons_of_neg dropped, ih,
            List.filter_filter]
          refine List.filter_congr fun other _ => ?_
          cases keepsOther : keeps other with
          | false => rfl
          | true =>
              have apart : other.same head = false := by
                rw [Bool.eq_false_iff]
                intro alike
                rw [respects other head alike, kept] at keepsOther
                cases keepsOther
              simp [apart]

/-- No place occurs twice among distinct paths. -/
theorem countP_same_distinct_le (paths : List Path) (path : Path) :
    (distinct paths).countP (·.same path) ≤ 1 := by
  induction paths with
  | nil => exact Nat.zero_le 1
  | cons head rest ih =>
      rw [distinct, List.countP_cons]
      by_cases alike : head.same path = true
      · have none : ((distinct rest).filter (!·.same head)).countP (·.same path) = 0 := by
          rw [List.countP_eq_zero]
          intro other inside same
          have kept := (List.mem_filter.mp inside).2
          rw [same_congr_right alike, same] at kept
          cases kept
        rw [if_pos alike]
        omega
      · have fewer : ((distinct rest).filter (!·.same head)).countP (·.same path) ≤
            (distinct rest).countP (·.same path) := List.filter_sublist.countP_le
        rw [if_neg alike]
        omega

/-- A path at the end is dropped exactly if its place occurs before it. -/
theorem distinct_concat (paths : List Path) (path : Path) :
    distinct (paths ++ [path]) =
      distinct paths ++ if paths.any (·.same path) then [] else [path] := by
  induction paths with
  | nil => rfl
  | cons head rest ih =>
      have flipped := same_comm path head
      have tail : (if rest.any (·.same path) then [] else [path]).filter (!·.same head) =
          if (head :: rest).any (·.same path) then [] else [path] := by
        cases later : rest.any (·.same path) <;> cases alike : head.same path <;>
          simp [later, alike, flipped]
      rw [List.cons_append, distinct, distinct, ih, List.filter_append, tail, List.cons_append]

/-- The distinct paths are the first ones of their places, and nothing else is. -/
theorem firsts_iff {paths firsts : List Path} : Firsts paths firsts ↔ firsts = distinct paths := by
  constructor
  · intro found
    induction found with
    | nil => rfl
    | @fresh paths firsts path before unseen ih =>
        have absent : ¬ paths.any (·.same path) = true := by
          rw [List.any_eq_true]
          rintro ⟨earlier, inside, alike⟩
          rw [unseen earlier inside] at alike
          cases alike
        rw [distinct_concat, ih, if_neg absent]
    | @seen paths firsts path before again ih =>
        have present : paths.any (·.same path) = true := List.any_eq_true.mpr again
        rw [distinct_concat, ih, if_pos present, List.append_nil]
  · rintro rfl
    induction paths using List.reverseRecOn with
    | nil => exact .nil
    | append_singleton paths path ih =>
        rw [distinct_concat]
        split
        · rename_i present
          rw [List.append_nil]
          exact .seen ih (List.any_eq_true.mp present)
        · rename_i absent
          refine .fresh ih fun earlier inside => ?_
          rw [Bool.eq_false_iff]
          intro alike
          exact absent (List.any_eq_true.mpr ⟨earlier, inside, alike⟩)

end CompilerFront.Path

namespace CompilerFront.Build

open CompilerFront.Path (distinct same_iff same_comm)

/-- The C file that the lexer generator writes is no lexer input, whatever it is written for. -/
theorem isLexerInput_generatedFile (input : Path) : (generatedFile input).isLexerInput = false := by
  have extension : (generatedFile input).extension? =
      if (Path.fileName? ⟨input.text.take _⟩).isSome then some "c".toList else none :=
    Path.extension?_setExtension _ (by decide) (by decide) (by decide)
  unfold Path.isLexerInput Path.kind
  rw [extension]
  split <;> rename_i shown <;> split at shown <;> cases shown <;> rfl

/-- The sources that are no lexer inputs. -/
def plainSources (sources : List Path) : List Path := sources.filter (!·.isLexerInput)

/-- Whether no path of a list is the place of an output. -/
def isFree (taken : List Path) (output : Path) : Bool := !taken.any (·.same output)

/-- The outputs whose places are not taken, each place once. -/
def newOutputs (taken outputs : List Path) : List Path := distinct (outputs.filter (isFree taken))

/-- The sources left for the compiler: the plain ones, then what is generated from the others. -/
def compilerSources (sources : List Path) : List Path :=
  plainSources sources ++ newOutputs (plainSources sources) ((lexerInputs sources).map generatedFile)

def replaceEach (sources inputs : List Path) : List Path :=
  inputs.foldl (fun sources input => replaceInput sources input (generatedFile input)) sources

theorem mem_plainSources {source : Path} {sources : List Path} :
    source ∈ plainSources sources ↔ source ∈ sources ∧ source.isLexerInput = false := by
  simp [plainSources]

theorem mem_of_mem_newOutputs {output : Path} {taken outputs : List Path}
    (inside : output ∈ newOutputs taken outputs) :
    output ∈ outputs ∧ isFree taken output = true :=
  List.mem_filter.mp (Path.mem_of_mem_distinct inside)

theorem isFree_congr {first second : Path} (alike : first.same second = true) (taken : List Path) :
    isFree taken first = isFree taken second := by
  simp only [isFree, Path.same_congr_right alike]

theorem isFree_concat (taken : List Path) (path output : Path) :
    isFree (taken ++ [path]) output = (isFree taken output && !output.same path) := by
  simp [isFree, same_comm output]

theorem newOutputs_singleton (taken : List Path) (output : Path) :
    newOutputs taken [output] = if isFree taken output then [output] else [] := by
  cases free : isFree taken output <;> simp [newOutputs, distinct, free]

theorem newOutputs_cons (taken : List Path) (output : Path) (outputs : List Path) :
    newOutputs taken (output :: outputs) =
      newOutputs taken [output] ++ newOutputs (taken ++ newOutputs taken [output]) outputs := by
  rw [newOutputs_singleton]
  cases free : isFree taken output with
  | false =>
      have dropped : ¬ isFree taken output = true := by simp [free]
      rw [newOutputs, List.filter_cons_of_neg dropped]
      simp only [Bool.false_eq_true, ↓reduceIte, List.append_nil, List.nil_append, newOutputs]
  | true =>
      have respects : ∀ first second : Path, first.same second = true →
          (!first.same output) = !second.same output := by
        intro first second alike
        rw [Path.same_congr_left alike]
      have narrower : outputs.filter (isFree (taken ++ [output])) =
          (outputs.filter (isFree taken)).filter (!·.same output) := by
        rw [List.filter_filter]
        refine List.filter_congr fun other _ => ?_
        rw [isFree_concat, Bool.and_comm]
      rw [newOutputs, List.filter_cons_of_pos free, distinct, ← Path.distinct_filter _ _ respects,
        ← narrower]
      simp only [↓reduceIte, List.singleton_append, newOutputs]

/-- One step of the replacement. Lexer inputs that are still waiting never hold an output back. -/
theorem replaceInput_eq {sources : List Path} {input : Path} (lexer : input.isLexerInput = true) :
    replaceInput sources input (generatedFile input) =
      sources.filter (!·.same input) ++ newOutputs (plainSources sources) [generatedFile input] := by
  have present : (sources.filter (!·.same input)).any (·.same (generatedFile input)) =
      (plainSources sources).any (·.same (generatedFile input)) := by
    rw [Bool.eq_iff_iff, List.any_eq_true, List.any_eq_true]
    constructor
    · rintro ⟨source, inside, alike⟩
      have plain := Path.isLexerInput_eq_of_same alike
      rw [isLexerInput_generatedFile] at plain
      exact ⟨source, mem_plainSources.mpr ⟨(List.mem_filter.mp inside).1, plain⟩, alike⟩
    · rintro ⟨source, inside, alike⟩
      obtain ⟨member, plain⟩ := mem_plainSources.mp inside
      refine ⟨source, List.mem_filter.mpr ⟨member, ?_⟩, alike⟩
      cases again : source.same input with
      | false => rfl
      | true =>
          rw [Path.isLexerInput_eq_of_same again, lexer] at plain
          cases plain
  rw [newOutputs_singleton, isFree, ← present]
  unfold replaceInput
  dsimp only
  split <;> rename_i found <;> simp [found]

theorem plainSources_append (first second : List Path) :
    plainSources (first ++ second) = plainSources first ++ plainSources second :=
  List.filter_append ..

theorem plainSources_of_all {sources : List Path}
    (plain : ∀ source ∈ sources, source.isLexerInput = false) : plainSources sources = sources := by
  refine List.filter_eq_self.mpr fun source inside => ?_
  simp [plain source inside]

theorem plainSources_filter_not_same {input : Path} (lexer : input.isLexerInput = true)
    (sources : List Path) : plainSources (sources.filter (!·.same input)) = plainSources sources := by
  unfold plainSources
  rw [List.filter_filter]
  refine List.filter_congr fun source _ => ?_
  cases alike : source.same input with
  | false => simp
  | true => simp [Path.isLexerInput_eq_of_same alike, lexer]

theorem newOutputs_plain {taken inputs : List Path} :
    ∀ output ∈ newOutputs taken (inputs.map generatedFile), output.isLexerInput = false := by
  intro output inside
  obtain ⟨input, -, rfl⟩ := List.mem_map.mp (mem_of_mem_newOutputs inside).1
  exact isLexerInput_generatedFile input

/-- The invariant of the replacement, for every prefix of the inputs: the sources that are none of
them, and behind those the outputs whose places were free. -/
theorem replaceEach_eq {inputs : List Path} (lexers : ∀ input ∈ inputs, input.isLexerInput = true)
    (sources : List Path) :
    replaceEach sources inputs =
      sources.filter (fun source => !inputs.any (source.same ·)) ++
        newOutputs (plainSources sources) (inputs.map generatedFile) := by
  induction inputs generalizing sources with
  | nil =>
      have all : sources.filter (fun source => !([] : List Path).any (source.same ·)) = sources :=
        List.filter_eq_self.mpr fun _ _ => rfl
      rw [all]
      exact (List.append_nil sources).symm
  | cons input rest ih =>
      have lexer := lexers input List.mem_cons_self
      have others : ∀ other ∈ rest, other.isLexerInput = true :=
        fun other inside => lexers other (List.mem_cons_of_mem _ inside)
      have fresh : ∀ output ∈ newOutputs (plainSources sources) [generatedFile input],
          output.isLexerInput = false := @newOutputs_plain _ [input]
      have untouched : (newOutputs (plainSources sources) [generatedFile input]).filter
          (fun source => !rest.any (source.same ·)) =
            newOutputs (plainSources sources) [generatedFile input] := by
        refine List.filter_eq_self.mpr fun output inside => ?_
        rw [Bool.not_eq_true', List.any_eq_false]
        intro other member alike
        have plain := Path.isLexerInput_eq_of_same alike
        rw [fresh output inside, others other member] at plain
        cases plain
      have plain : plainSources (sources.filter (!·.same input) ++
          newOutputs (plainSources sources) [generatedFile input]) =
            plainSources sources ++ newOutputs (plainSources sources) [generatedFile input] := by
        rw [plainSources_append, plainSources_filter_not_same lexer, plainSources_of_all fresh]
      have step : replaceEach sources (input :: rest) =
          replaceEach (replaceInput sources input (generatedFile input)) rest := rfl
      rw [step, ih others, replaceInput_eq lexer, plain, List.filter_append, untouched,
        List.filter_filter, List.map_cons, newOutputs_cons _ _ (rest.map generatedFile),
        ← List.append_assoc]
      congr 2
      refine List.filter_congr fun source _ => ?_
      simp [Bool.and_comm]

/-- Replacing every lexer input leaves the sources for the compiler. -/
theorem replaceEach_lexerInputs (sources : List Path) :
    replaceEach sources (lexerInputs sources) = compilerSources sources := by
  have lexers : ∀ input ∈ lexerInputs sources, input.isLexerInput = true :=
    fun input inside => (isLexerInput_of_mem_lexerInputs inside).2
  rw [replaceEach_eq lexers, compilerSources]
  congr 1
  refine List.filter_congr fun source inside => ?_
  congr 1
  rw [Bool.eq_iff_iff, List.any_eq_true]
  constructor
  · rintro ⟨input, member, alike⟩
    rw [Path.isLexerInput_eq_of_same alike]
    exact lexers input member
  · intro lexer
    obtain ⟨input, member, alike⟩ :=
      Path.exists_distinct_same (List.mem_filter.mpr ⟨inside, lexer⟩)
    exact ⟨input, member, (same_comm source input).trans alike⟩

/-- Every output is there behind the plain sources, or has its place among them. -/
theorem countP_newOutputs_pos {taken outputs : List Path} {output : Path}
    (inside : output ∈ outputs) :
    0 < (taken ++ newOutputs taken outputs).countP (·.same output) := by
  rw [List.countP_pos_iff]
  by_cases free : isFree taken output = true
  · obtain ⟨first, member, alike⟩ :=
      Path.exists_distinct_same (List.mem_filter.mpr ⟨inside, free⟩)
    exact ⟨first, List.mem_append_right _ member, alike⟩
  · have present : taken.any (·.same output) = true := by simpa [isFree] using free
    obtain ⟨source, member, alike⟩ := List.any_eq_true.mp present
    exact ⟨source, List.mem_append_left _ member, alike⟩

/-- An output whose place occurs twice has it twice among the sources it was added to. -/
theorem countP_of_countP_newOutputs {taken outputs : List Path} {output : Path}
    (twice : 1 < (taken ++ newOutputs taken outputs).countP (·.same output)) :
    1 < taken.countP (·.same output) := by
  rw [List.countP_append] at twice
  by_cases free : isFree taken output = true
  · have none : taken.countP (·.same output) = 0 := by
      rw [List.countP_eq_zero]
      intro source inside alike
      have present : taken.any (·.same output) = true :=
        List.any_eq_true.mpr ⟨source, inside, alike⟩
      rw [isFree, present] at free
      cases free
    have once := Path.countP_same_distinct_le (outputs.filter (isFree taken)) output
    rw [newOutputs] at twice
    omega
  · have none : (newOutputs taken outputs).countP (·.same output) = 0 := by
      rw [List.countP_eq_zero]
      intro other inside alike
      exact free ((isFree_congr alike taken).symm.trans (mem_of_mem_newOutputs inside).2)
    omega

theorem compilerSources_plain (sources : List Path) :
    ∀ source ∈ compilerSources sources, source.isLexerInput = false := by
  intro source inside
  rcases List.mem_append.mp inside with plain | added
  · exact (mem_plainSources.mp plain).2
  · exact newOutputs_plain source added

end CompilerFront.Build
