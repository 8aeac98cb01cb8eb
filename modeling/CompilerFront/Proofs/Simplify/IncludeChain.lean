import CompilerFront.Proofs.Diagnostic.Printed
import CompilerFront.Proofs.Simplify.HeaderLocations
import CompilerFront.Proofs.Simplify.PlainCode

set_option autoImplicit false

namespace CompilerFront.Simplify

open CompilerFront.Diagnostic (Place)

/-- The words in front of the places in a chain: in its first line, and in those that follow. -/
inductive ChainWords where
  | opening
  | further
  deriving DecidableEq, Repr

def ChainWords.text : ChainWords → Text
  | .opening => "In file included from"
  | .further => "from"

/-- A line of a chain of includes. A comma at its end says that the chain goes on. -/
structure ChainLine extends Place where
  indentation : Text
  words : ChainWords
  stop : Char
  indentation_isAllBlank : Text.isAllBlank indentation = true
  stop_eq : stop = ',' ∨ stop = ':'

namespace ChainLine

variable (chain : ChainLine)

def stopped : Text := chain.toPlace.text ++ [chain.stop]

def text : Text := chain.indentation ++ (chain.words.text ++ ' ' :: chain.stopped)

/-- What is left of the place at a level. -/
def left (level : Nat) : Text :=
  if libraryLevel ≤ level then removeHeaderLocations chain.stopped else chain.stopped

/-- Nothing is left of a line in a header if no column follows it and the chain goes on. -/
def Emptied (level : Nat) : Prop :=
  libraryLevel ≤ level ∧ chain.InHeader ∧ chain.column = none ∧ chain.stop = ','

instance (level : Nat) : Decidable (chain.Emptied level) :=
  inferInstanceAs (Decidable (_ ∧ _ ∧ _ ∧ _))

theorem head?_words_append (words : ChainWords) (rest : Text) :
    ∀ c ∈ (words.text ++ rest).head?, Text.isBlank c = false := by
  intro c head
  cases words with
  | opening =>
      obtain rfl : 'I' = c := Option.some.inj head
      decide
  | further =>
      obtain rfl : 'f' = c := Option.some.inj head
      decide

theorem stop_isCut (left : Option Char) (other : left ≠ some ':') :
    Diagnostic.isCut left chain.stop [] = true := by
  rw [Diagnostic.isCut_iff]
  rcases chain.stop_eq with comma | colon
  · exact .inr ⟨comma, rfl⟩
  · exact .inl ⟨colon, other, by simp⟩

theorem stop_solid : Text.isBlank chain.stop = false := by
  rcases chain.stop_eq with comma | colon
  · rw [comma]
    decide
  · rw [colon]
    decide

theorem trim_text :
    Text.trim chain.text = (chain.words.text ++ " ") ++ chain.toPlace.text ++ [chain.stop] := by
  have trimmed : Text.trim (chain.words.text ++ ' ' :: chain.stopped) =
      chain.words.text ++ ' ' :: chain.stopped := by
    refine Text.trim_eq_self_iff.mpr ⟨head?_words_append chain.words _, fun c last => ?_⟩
    have ends : chain.words.text ++ ' ' :: chain.stopped =
        (chain.words.text ++ ' ' :: chain.toPlace.text) ++ [chain.stop] := by
      simp [stopped]
    rw [ends, List.getLast?_concat] at last
    obtain rfl := Option.some.inj last
    exact chain.stop_solid
  rw [text, Text.trim_append_of_isAllBlank chain.indentation_isAllBlank, trimmed, stopped]
  simp

theorem segments_text :
    Diagnostic.segments (Text.trim chain.text) =
      ((chain.words.text ++ " ") ++ chain.file) :: chain.line ::
        (chain.column.toList ++ [[]]) := by
  have colonless : ':' ∉ chain.words.text ++ " " := by
    cases chain.words <;> decide
  have started : ∀ c ∈ ((chain.words.text ++ " ") ++ chain.file).head?, Text.isBlank c = false := by
    rw [List.append_assoc]
    exact head?_words_append chain.words _
  rw [trim_text, Place.segments_text colonless started chain.stop_isCut]
  rfl

/-- The words are no part of the file's name. -/
theorem withoutChainWords_file :
    Diagnostic.withoutChainWords ((chain.words.text ++ " ") ++ chain.file) = chain.file := by
  have spaced : Text.trim (' ' :: chain.file) = chain.file := by
    rw [Text.trim_cons_of_isBlank (by decide), Text.trim_of_solid chain.file_solid]
  cases chain.words with
  | opening =>
      have after : ("In file included from" : Text).isPrefixOf?
          ((ChainWords.opening.text ++ " ") ++ chain.file) = some (' ' :: chain.file) :=
        List.isPrefixOf?_eq_some_iff_append_eq.mpr rfl
      simp only [Diagnostic.withoutChainWords, after, spaced]
  | further =>
      have other : ("In file included from" : Text).isPrefixOf?
          ((ChainWords.further.text ++ " ") ++ chain.file) = none := rfl
      have after : ("from " : Text).isPrefixOf?
          ((ChainWords.further.text ++ " ") ++ chain.file) = some chain.file :=
        List.isPrefixOf?_eq_some_iff_append_eq.mpr rfl
      simp only [Diagnostic.withoutChainWords, other, after, Text.trim_of_solid chain.file_solid]

/-- The line is read as if it named the file only. -/
theorem ofLine_eq_ofSegments :
    Diagnostic.ofLine chain.text =
      Diagnostic.ofSegments (chain.file :: chain.line :: (chain.column.toList ++ [[]])) := by
  rw [Diagnostic.ofLine, segments_text, Diagnostic.ofSegments, Diagnostic.ofSegments,
    withoutChainWords_file,
    Diagnostic.PrintedDiagnostic.withoutChainWords_of_not_mem Place.space_not_mem_file]

/-- What is behind the file in the line, which ends with an empty segment. -/
theorem isDigit_of_mem_segments :
    ∀ segment ∈ chain.line :: (chain.column.toList ++ [[]]), ∀ c ∈ segment,
      Text.isDigit c = true := by
  intro segment listed c inside
  rw [← List.cons_append, List.mem_append, List.mem_singleton] at listed
  rcases listed with number | rfl
  · exact Text.isDigit_of_mem (Place.numbers_isNumeral segment number) inside
  · cases inside

/-- No code is quoted in a chain. Numbers are taken for code where the file has the name of the
linker driver. -/
theorem isPosition_of_mem_fragments :
    ∀ fragment ∈ (Diagnostic.ofLine chain.text).fragments, IsPosition fragment := by
  intro fragment listed
  rw [ofLine_eq_ofSegments] at listed
  by_cases linker : chain.file = "collect2".toList
  · have read : Diagnostic.ofSegments (chain.file :: chain.line :: (chain.column.toList ++ [[]])) =
        { Diagnostic.unclassified with kind := some .message }.withMessage
          (chain.line :: (chain.column.toList ++ [[]])) := by
      rw [linker]
      rfl
    have unopened : ∀ segment ∈ chain.line :: (chain.column.toList ++ [[]]),
        Diagnostic.openQuote ∉ segment := by
      intro segment number inside
      cases chain.isDigit_of_mem_segments segment number _ inside
    rw [read, Diagnostic.fragments_withMessage_of_not_mem unopened] at listed
    obtain rfl := List.mem_singleton.mp (List.mem_of_mem_filter listed)
    exact isPosition_plainFragment chain.isDigit_of_mem_segments
  · have read := Diagnostic.PrintedDiagnostic.ofSegments_of_isNumeral chain.file_ne_nil
      Place.space_not_mem_file linker chain.line_isNumeral (chain.column.toList ++ [[]])
    rw [Place.takeColumn_toList (by simp)] at read
    rw [read] at listed
    cases listed

theorem left_of_emptied {level : Nat} (emptied : chain.Emptied level) : chain.left level = [] := by
  obtain ⟨hidden, inHeader, noColumn, comma⟩ := emptied
  have ended : ([','] : Text).takeWhile Text.isDigit = [] := rfl
  rw [left, if_pos hidden, stopped, comma,
    removeHeaderLocations_place_of_line inHeader noColumn ended]
  rfl

/-- A place in a header leaves its column or the colon that ends the chain. -/
theorem head?_removeHeaderLocations_of_inHeader (inHeader : chain.InHeader)
    (more : ¬ (chain.column = none ∧ chain.stop = ',')) :
    (removeHeaderLocations chain.stopped).head? = some ':' := by
  have apart (rest : Text) : ¬ systemHeaders <+: ':' :: rest := by
    intro start
    cases (List.cons_prefix_cons.mp start).1
  cases column : chain.column with
  | some numeral =>
      rw [stopped, removeHeaderLocations_place_of_column inHeader column,
        removeHeaderLocations_cons (apart _)]
      rfl
  | none =>
      have colon : chain.stop = ':' := chain.stop_eq.resolve_left fun comma => more ⟨column, comma⟩
      have ended : ([':'] : Text).takeWhile Text.isDigit = [] := rfl
      rw [stopped, colon, removeHeaderLocations_place_of_line inHeader column ended]
      rfl

/-- A file that is no header keeps its first character. -/
theorem head?_removeHeaderLocations_of_not_inHeader (elsewhere : ¬ chain.InHeader) :
    (removeHeaderLocations chain.stopped).head? = chain.file.head? := by
  have split : chain.stopped =
      chain.file ++ ':' :: (Text.joinWith ":" chain.numbers ++ [chain.stop]) := by
    rw [stopped, Place.text_eq]
    simp
  by_cases directory : chain.file = systemHeaders
  · rw [split, directory, removeHeaderLocations_unnamed]
    rfl
  · have absent : ¬ systemHeaders <+: chain.stopped := by
      rw [split, Text.prefix_append_cons_iff (by decide)]
      exact fun start => elsewhere ⟨start, directory⟩
    obtain ⟨c, rest, file⟩ := List.exists_cons_of_ne_nil chain.file_ne_nil
    rw [split, file, List.cons_append] at absent ⊢
    rw [removeHeaderLocations_cons absent]
    rfl

theorem head?_left {level : Nat} (more : ¬ chain.Emptied level) :
    ∃ c, (chain.left level).head? = some c ∧ Text.isBlank c = false := by
  obtain ⟨first, others, file⟩ := List.exists_cons_of_ne_nil chain.file_ne_nil
  have inside : first ∈ chain.file := by
    rw [file]
    exact List.mem_cons_self
  have solid : Text.isBlank first = false := chain.file_solid first inside
  have head : chain.file.head? = some first := by rw [file, List.head?_cons]
  by_cases hidden : libraryLevel ≤ level
  · rw [left, if_pos hidden]
    by_cases inHeader : chain.InHeader
    · have kept : ¬ (chain.column = none ∧ chain.stop = ',') :=
        fun closed => more ⟨hidden, inHeader, closed⟩
      exact ⟨':', chain.head?_removeHeaderLocations_of_inHeader inHeader kept, by decide⟩
    · have copied := chain.head?_removeHeaderLocations_of_not_inHeader inHeader
      exact ⟨first, copied.trans head, solid⟩
  · have begins : chain.stopped.head? = chain.file.head? := by
      rw [stopped, Place.text_eq, List.append_assoc,
        List.head?_append_of_ne_nil _ chain.file_ne_nil]
    rw [left, if_neg hidden]
    exact ⟨first, begins.trans head, solid⟩

theorem slash_not_mem : '/' ∉ chain.indentation ++ (chain.words.text ++ " ") := by
  intro inside
  rcases List.mem_append.mp inside with blank | word
  · cases List.all_eq_true.mp chain.indentation_isAllBlank '/' blank
  · exact absurd word (by cases chain.words <;> decide)

theorem not_isPrefixOf_error (rest : Text) :
    ("error: " : Text).isPrefixOf (chain.indentation ++ (chain.words.text ++ rest)) = false := by
  cases indented : chain.indentation with
  | nil => cases chain.words <;> rfl
  | cons c others =>
      have blank := chain.indentation_isAllBlank
      rw [indented, Text.isAllBlank, List.all_cons, Bool.and_eq_true] at blank
      have apart : 'e' ≠ c := by
        rintro rfl
        cases blank.1
      simp [List.isPrefixOf, apart]

/-- The line at a level, before its blanks at the end are removed. -/
theorem simplifyLine_text {level : Nat} (simplified : codeLevel ≤ level) :
    simplifyLine level (Diagnostic.ofLine chain.text) chain.text =
      simplifyFragments level (Diagnostic.ofLine chain.text).fragments
        (chain.indentation ++ (chain.words.text ++ ' ' :: chain.left level)) := by
  by_cases hidden : libraryLevel ≤ level
  · have split (rest : Text) : chain.indentation ++ (chain.words.text ++ ' ' :: rest) =
        (chain.indentation ++ (chain.words.text ++ " ")) ++ rest := by simp
    have short : removeHeaderLocations chain.text =
        chain.indentation ++ (chain.words.text ++ ' ' :: chain.left level) := by
      rw [text, split, removeHeaderLocations_append chain.slash_not_mem, split, left,
        if_pos hidden]
    rw [simplifyLine_of_le hidden, short, not_isPrefixOf_error, if_neg Bool.false_ne_true]
  · rw [simplifyLine_of_lt simplified (Nat.not_le.mp hidden), left, if_neg hidden, text]

theorem trimEnd_words :
    Text.trimEnd (chain.indentation ++ chain.words.text) =
      chain.indentation ++ chain.words.text := by
  have solid : Text.trimEnd chain.words.text = chain.words.text := by
    cases chain.words <;> decide
  rw [Text.trimEnd_append, solid]
  cases chain.words <;> rfl

/-- The words of a chain and a space begin a line that is dropped; the first words do so alone. -/
theorem isDropped_words {rest : Text} (begun : chain.words = .opening ∨ rest.head? = some ' ') :
    isDropped (chain.indentation ++ chain.words.text ++ rest) = true := by
  have start : Text.trimStart (chain.indentation ++ chain.words.text ++ rest) =
      chain.words.text ++ rest := by
    rw [List.append_assoc, Text.trimStart_append_of_isAllBlank chain.indentation_isAllBlank]
    exact Text.trimStart_eq_self_iff.mpr (head?_words_append chain.words rest)
  rw [isDropped, start]
  rcases begun with opening | spaced
  · rw [opening]
    rfl
  · obtain ⟨behind, rfl⟩ := List.head?_eq_some_iff.mp spaced
    cases chain.words <;> rfl

theorem isDropped_further :
    isDropped (chain.indentation ++ ChainWords.further.text) = false := by
  rw [isDropped, Text.trimStart_append_of_isAllBlank chain.indentation_isAllBlank]
  decide

/-- Filling removes the indentation. -/
theorem fillLine_further :
    fillLine (chain.indentation ++ ChainWords.further.text) = ChainWords.further.text := by
  rw [fillLine, Text.words_append_of_isAllBlank chain.indentation_isAllBlank]
  decide

/-- The words alone, indented unless the line is filled. -/
def remnant (level : Nat) : Text :=
  if fillLevel ≤ level ∧ lineWidth < (chain.indentation ++ chain.words.text).length then
    chain.words.text
  else chain.indentation ++ chain.words.text

/-- The lines of a chain of includes are dropped at every level, with one exception: a line that
follows the first one, in a header and without a column, leaves its first word if the chain goes
on. -/
theorem simplifyLine_chain {level : Nat} (simplified : codeLevel ≤ level) :
    simplifyLine level (Diagnostic.ofLine chain.text) chain.text =
      if chain.words = .further ∧ chain.Emptied level then chain.remnant level else [] := by
  have unchanged : ∀ fragment ∈ (Diagnostic.ofLine chain.text).fragments,
      simplifyFragment level fragment = fragment :=
    fun fragment listed =>
      simplifyFragment_of_isPosition (chain.isPosition_of_mem_fragments fragment listed) level
  have trimmed : Text.trimEnd (chain.indentation ++ (chain.words.text ++ ' ' :: chain.left level)) =
      chain.indentation ++ chain.words.text ++ Text.trimEnd (' ' :: chain.left level) := by
    rw [← List.append_assoc, Text.trimEnd_append_of_trimmed chain.trimEnd_words]
  rw [simplifyLine_text chain simplified, simplifyFragments,
    foldl_simplifyWithin_of_unchanged unchanged, trimmed]
  by_cases emptied : chain.Emptied level
  · have nothing : Text.trimEnd (' ' :: chain.left level) = [] := by
      rw [chain.left_of_emptied emptied]
      rfl
    rw [nothing]
    cases words : chain.words with
    | opening =>
        have dropped := @isDropped_words chain [] (.inl words)
        rw [words] at dropped
        have other : ¬ (ChainWords.opening = .further ∧ chain.Emptied level) := by simp
        rw [dropped, if_pos rfl, if_neg other]
    | further =>
        have stranded : ChainWords.further = .further ∧ chain.Emptied level := ⟨rfl, emptied⟩
        rw [List.append_nil, isDropped_further, fillLine_further, if_neg Bool.false_ne_true,
          if_pos stranded, remnant, words]
  · obtain ⟨c, head, solid⟩ := chain.head?_left emptied
    obtain ⟨rest, shape⟩ := List.head?_eq_some_iff.mp head
    have spaced : (Text.trimEnd (' ' :: chain.left level)).head? = some ' ' := by
      rw [shape, Text.trimEnd_cons, Text.trimEnd_cons, solid, Bool.and_false]
      rfl
    rw [chain.isDropped_words (.inr spaced), if_pos rfl,
      if_neg (fun stranded => emptied stranded.2)]

def vectorLine : ChainLine where
  file := "/usr/include/c++/4.4/vector"
  line := "64"
  column := none
  indentation := "                 "
  words := .further
  stop := ','
  file_ne_nil := by decide
  colon_not_mem_file := by decide
  file_any_isBlank := rfl
  line_isNumeral := by decide
  column_isNumeral := Place.isNumeral_of_mem_none
  indentation_isAllBlank := rfl
  stop_eq := .inl rfl

def vectorColumn : ChainLine :=
  { vectorLine with column := some "10", column_isNumeral := by decide }

theorem simplifyLine_vectorColumn :
    codeLevel ≤ 2 ∧
      simplifyLine 2 (Diagnostic.ofLine vectorColumn.text) vectorColumn.text = [] := by
  have simplified : codeLevel ≤ 2 := by decide
  refine ⟨simplified, ?_⟩
  rw [simplifyLine_chain vectorColumn simplified]
  decide

/-- Without one its first word is left over. -/
theorem simplifyLine_vectorLine :
    vectorLine.text = "                 from /usr/include/c++/4.4/vector:64," ∧
      simplifyLine 2 (Diagnostic.ofLine vectorLine.text) vectorLine.text =
        "                 from" := by
  decide +kernel

end ChainLine

end CompilerFront.Simplify
