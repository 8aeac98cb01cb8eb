import CompilerFront.Proofs.Diagnostic.Printed
import CompilerFront.Proofs.Diagnostic.Respaced
import CompilerFront.Proofs.Simplify.Fill
import CompilerFront.Proofs.Simplify.HeaderLocations
import CompilerFront.Proofs.Simplify.PlainCode
import CompilerFront.Proofs.Text.Occurrence

set_option autoImplicit false

namespace CompilerFront.Simplify

open CompilerFront.Diagnostic (Place KindWord)

/-- A column between its colons. -/
def columnText (numeral : Text) : Text := ':' :: (numeral ++ [':'])

theorem isPosition_columnText {numeral : Text} (isNumeral : Text.isNumeral numeral = true) :
    IsPosition (columnText numeral) := by
  intro c inside
  rcases List.mem_cons.mp inside with rfl | inside
  · exact .inr rfl
  · rcases List.mem_append.mp inside with digit | colon
    · exact .inl (Text.isDigit_of_mem isNumeral digit)
    · exact .inr (List.mem_singleton.mp colon)

theorem columnText_solid {numeral : Text} (isNumeral : Text.isNumeral numeral = true) :
    ∀ c ∈ columnText numeral, Text.isBlank c = false := by
  intro c inside
  rcases isPosition_columnText isNumeral c inside with digit | rfl
  · exact Diagnostic.not_isBlank_of_isDigit digit
  · decide

/-- A diagnostic at a place in a header, its message free of headers and of quotes. -/
structure HeaderDiagnostic extends Place where
  word : KindWord
  message : Text
  inHeader : toPlace.InHeader
  headerless : ¬ systemHeaders <:+: message
  unquoted : Diagnostic.openQuote ∉ message

namespace HeaderDiagnostic

variable (printed : HeaderDiagnostic)

def said : Text := printed.word.text ++ (": " ++ printed.message)

def text : Text := printed.toPlace.text ++ (": " ++ printed.said)

/-- What stays of the place where headers are hidden: the column, with a space behind it. -/
def leftover : Text := printed.column.elim [] fun numeral => columnText numeral ++ [' ']

theorem removeHeaderLocations_said : removeHeaderLocations printed.said = printed.said := by
  have split : printed.said = (printed.word.text ++ ": ") ++ printed.message := by simp [said]
  have slashless : '/' ∉ printed.word.text ++ ": " := by
    cases printed.word <;> decide
  rw [split, removeHeaderLocations_append slashless,
    removeHeaderLocations_of_absent printed.headerless]

theorem removeHeaderLocations_text :
    removeHeaderLocations printed.text = printed.leftover ++ printed.said := by
  cases column : printed.column with
  | none =>
      have ended : (": " ++ printed.said : Text).takeWhile Text.isDigit = [] := rfl
      have closed : (": " : Text).isPrefixOf (": " ++ printed.said : Text) = true :=
        List.isPrefixOf_iff_prefix.mpr (List.prefix_append _ _)
      rw [text, removeHeaderLocations_place_of_line printed.inHeader column ended, closed,
        if_pos rfl, leftover, column]
      exact printed.removeHeaderLocations_said
  | some numeral =>
      have isNumeral : Text.isNumeral numeral = true := printed.column_isNumeral numeral column
      have slashless : '/' ∉ columnText numeral ++ [' '] := by
        intro inside
        rcases List.mem_append.mp inside with position | space
        · have stray := isPosition_columnText isNumeral '/' position
          simp [Text.isDigit] at stray
        · cases List.mem_singleton.mp space
      have split : (':' :: (numeral ++ (": " ++ printed.said)) : Text) =
          (columnText numeral ++ [' ']) ++ printed.said := by simp [columnText]
      rw [text, removeHeaderLocations_place_of_column printed.inHeader column, split,
        removeHeaderLocations_append slashless, printed.removeHeaderLocations_said, leftover,
        column]
      rfl

def parts : List Text :=
  (Diagnostic.pieces (some ':') (Text.trimEnd (' ' :: printed.message))).map Text.trim

theorem head?_trimEnd_message : (Text.trimEnd (' ' :: printed.message)).head? ≠ some ':' := by
  rw [Text.trimEnd_cons]
  split <;> simp

theorem trim_text :
    Text.trim printed.text = printed.toPlace.text ++
      ':' :: ((' ' :: printed.word.text) ++ ':' :: Text.trimEnd (' ' :: printed.message)) := by
  have split : printed.text =
      (printed.toPlace.text ++ ':' :: ' ' :: (printed.word.text ++ [':'])) ++
        ' ' :: printed.message := by
    simp [text, said]
  have front : Text.trimEnd (printed.toPlace.text ++ ':' :: ' ' :: (printed.word.text ++ [':'])) =
      printed.toPlace.text ++ ':' :: ' ' :: (printed.word.text ++ [':']) := by
    have last := Text.trimEnd_concat_of_not_isBlank (show Text.isBlank ':' = false by decide)
      (printed.toPlace.text ++ ':' :: ' ' :: printed.word.text)
    simpa using last
  have start : Text.trimStart printed.text = printed.text :=
    Place.trimStart_text_append (": " ++ printed.said)
  rw [Text.trim, start, split, Text.trimEnd_append_of_trimmed front]
  simp

theorem segments_text :
    Diagnostic.segments (Text.trim printed.text) =
      printed.file :: printed.line ::
        (printed.column.toList ++ printed.word.text :: printed.parts) := by
  have started : ∀ c ∈ printed.file.head?, Text.isBlank c = false :=
    fun c head => printed.file_solid c (List.mem_of_head? head)
  have cut : ∀ left, left ≠ some ':' → Diagnostic.isCut left ':'
      ((' ' :: printed.word.text) ++ ':' :: Text.trimEnd (' ' :: printed.message)) = true := by
    intro left other
    simp [Diagnostic.isCut, other]
  have isPart : Diagnostic.IsPart (' ' :: printed.word.text) :=
    printed.word.isPart_text.cons (by decide)
  have read := @Place.segments_text printed.toPlace [] _ ':' List.not_mem_nil started cut
  rw [List.nil_append, List.nil_append,
    Diagnostic.pieces_isPart_append isPart printed.head?_trimEnd_message, List.map_cons,
    Text.trim_cons_of_isBlank (by decide), KindWord.trim_text] at read
  rw [trim_text, read]
  rfl

theorem openQuote_not_mem_part : ∀ part ∈ printed.parts, Diagnostic.openQuote ∉ part := by
  intro part listed inside
  obtain ⟨piece, place, rfl⟩ := List.mem_map.mp listed
  have within := Diagnostic.mem_of_mem_pieces place ((Text.trim_infix piece).mem inside)
  obtain ⟨blanks, same, -⟩ := Text.trimEnd_append_blanks (' ' :: printed.message)
  have spoken : Diagnostic.openQuote ∈ ' ' :: printed.message := by
    rw [same]
    exact List.mem_append_left blanks within
  rcases List.mem_cons.mp spoken with space | message
  · cases space
  · exact printed.unquoted message

theorem fragments_text :
    (Diagnostic.ofLine printed.text).fragments =
      [Diagnostic.plainFragment printed.parts].filter (!·.isEmpty) := by
  have notLinker : printed.file ≠ "collect2".toList := by
    obtain ⟨name, -, -, file⟩ := printed.inHeader.exists_name
    rw [file]
    intro same
    cases (List.cons.inj same).1
  have other : ∀ segment ∈ (printed.word.text :: printed.parts).head?,
      Text.isNumeral segment = false := by
    intro segment head
    obtain rfl := Option.some.inj head
    exact printed.word.isNumeral_text
  rw [Diagnostic.ofLine, segments_text,
    Diagnostic.PrintedDiagnostic.ofSegments_of_isNumeral printed.file_ne_nil
      Place.space_not_mem_file notLinker printed.line_isNumeral,
    Place.takeColumn_toList other]
  simp only [Diagnostic.takeKind, KindWord.ofWord?_text]
  exact Diagnostic.fragments_withMessage_of_not_mem printed.openQuote_not_mem_part _

/-- In what is read as code, a blank follows a colon only if another colon is in front of it. -/
theorem solid_behind_colon {before behind : Text}
    (same : Diagnostic.plainFragment printed.parts = before ++ ':' :: behind) :
    before.getLast? = some ':' ∨ ∀ c ∈ behind.head?, Text.isBlank c = false := by
  have suffix : Diagnostic.named printed.parts <:+
      Diagnostic.segments (Text.trim printed.text) := by
    rw [segments_text]
    refine (Diagnostic.named_suffix printed.parts).trans ?_
    exact ⟨printed.file :: printed.line :: (printed.column.toList ++ [printed.word.text]), by simp⟩
  obtain ⟨raw, gaps, -, respaced⟩ :=
    Diagnostic.respaced_of_suffix (Diagnostic.not_isBlank_of_head?_colon []) printed.text suffix
  rw [Diagnostic.plainFragment_eq] at same
  exact respaced.solid_behind_colon same

/-- What is in front of the second colon of a column does not end with a colon. -/
theorem getLast?_ne_of_suffix {numeral before : Text} (isNumeral : Text.isNumeral numeral = true)
    (inside : before <:+ ':' :: numeral) : before.getLast? ≠ some ':' := by
  intro last
  have started : before ≠ [] := List.ne_nil_of_mem (List.mem_of_getLast? last)
  obtain ⟨earlier, whole⟩ := inside
  have ends : numeral.getLast? = some ':' := by
    rw [← Diagnostic.getLast?_cons_of_ne_nil ':' (Text.ne_nil_of_isNumeral isNumeral),
      ← whole, List.getLast?_append_of_ne_nil earlier started]
    exact last
  cases Text.isDigit_of_mem isNumeral (List.mem_of_getLast? ends)

/-- No code that is changed begins in the column: it would go on behind the second colon, where a
space follows. -/
theorem apart_columnText {numeral : Text} (column : printed.column = some numeral)
    (changed : ¬ IsPosition (Diagnostic.plainFragment printed.parts)) (rest : Text) :
    Text.Apart (Diagnostic.plainFragment printed.parts) (columnText numeral) (' ' :: rest) := by
  have isNumeral : Text.isNumeral numeral = true := printed.column_isNumeral numeral column
  have absent : ¬ Diagnostic.plainFragment printed.parts <:+: columnText numeral := fun inside =>
    changed fun c here => isPosition_columnText isNumeral c (inside.mem here)
  refine Text.apart_of_unmet absent fun left behind halves started begun inside spaced => ?_
  obtain ⟨before, rfl, earlier⟩ :=
    (List.suffix_concat_iff.mp (show left <:+ (':' :: numeral) ++ [':'] from inside)).resolve_left
      started
  obtain ⟨c, further, rfl⟩ := List.exists_cons_of_ne_nil begun
  obtain ⟨rfl, -⟩ := List.cons_prefix_cons.mp spaced
  have split : Diagnostic.plainFragment printed.parts = before ++ ':' :: ' ' :: further := by
    rw [halves, List.append_assoc]
    rfl
  rcases printed.solid_behind_colon split with last | solid
  · exact getLast?_ne_of_suffix isNumeral earlier last
  · cases solid ' ' rfl

/-- Rewriting the code that was read leaves the column at the front. -/
theorem exists_foldl_simplifyWithin {numeral : Text} (column : printed.column = some numeral)
    (level : Nat) :
    ∃ rest, (Diagnostic.ofLine printed.text).fragments.foldl (simplifyWithin level)
      (columnText numeral ++ ' ' :: printed.said) = columnText numeral ++ rest := by
  rw [fragments_text]
  by_cases empty : Diagnostic.plainFragment printed.parts = []
  · rw [empty]
    exact ⟨' ' :: printed.said, rfl⟩
  · have single : [Diagnostic.plainFragment printed.parts].filter (!·.isEmpty) =
        [Diagnostic.plainFragment printed.parts] := by
      simp [empty]
    rw [single, List.foldl_cons, List.foldl_nil, simplifyWithin]
    by_cases position : IsPosition (Diagnostic.plainFragment printed.parts)
    · rw [simplifyFragment_of_isPosition position, Text.replaceAll_self_right]
      exact ⟨' ' :: printed.said, rfl⟩
    · rw [Text.replaceAll_append_of_apart
        (printed.apart_columnText column position printed.said)]
      exact ⟨_, rfl⟩

theorem isDropped_colon (rest : Text) : isDropped (':' :: rest) = false := by
  have start : Text.trimStart (':' :: rest) = ':' :: rest :=
    Text.trimStart_eq_self_iff.mpr (Diagnostic.not_isBlank_of_head?_colon rest)
  rw [isDropped, start]
  rfl

/-- A column at the front of a line is shown. -/
theorem columnText_prefix_simplifyLine {numeral : Text} (column : printed.column = some numeral)
    {level : Nat} (hidden : libraryLevel ≤ level) :
    columnText numeral <+:
      simplifyLine level (Diagnostic.ofLine printed.text) printed.text := by
  have isNumeral : Text.isNumeral numeral = true := printed.column_isNumeral numeral column
  have short : removeHeaderLocations printed.text = columnText numeral ++ ' ' :: printed.said := by
    rw [removeHeaderLocations_text, leftover, column]
    simp
  have noError : ("error: " : Text).isPrefixOf
      (columnText numeral ++ ' ' :: printed.said) = false := rfl
  obtain ⟨rest, rewritten⟩ := printed.exists_foldl_simplifyWithin column level
  have trimmed : Text.trimEnd (columnText numeral ++ rest) =
      columnText numeral ++ Text.trimEnd rest := by
    refine Text.trimEnd_append_of_trimmed ?_ rest
    exact Text.trimEnd_concat_of_not_isBlank (by decide) (':' :: numeral)
  have shown : isDropped (columnText numeral ++ Text.trimEnd rest) = false :=
    isDropped_colon _
  rw [simplifyLine_of_le hidden, short, noError, if_neg Bool.false_ne_true, simplifyFragments,
    rewritten, trimmed, shown, if_neg Bool.false_ne_true]
  split
  · exact prefix_fillLine (List.cons_ne_nil _ _) (columnText_solid isNumeral) _
  · exact List.prefix_append _ _

theorem simplifyLine_of_error (noColumn : printed.column = none) (error : printed.word = .error)
    {level : Nat} (hidden : libraryLevel ≤ level) :
    simplifyLine level (Diagnostic.ofLine printed.text) printed.text = [] := by
  have short : removeHeaderLocations printed.text = "error: " ++ printed.message := by
    rw [removeHeaderLocations_text, leftover, noColumn, said, error]
    rfl
  have start : ("error: " : Text).isPrefixOf ("error: " ++ printed.message : Text) = true :=
    List.isPrefixOf_iff_prefix.mpr (List.prefix_append _ _)
  rw [simplifyLine_of_le hidden, short, start, if_pos rfl]

/-- Where headers are hidden, the place of a diagnostic in a header is removed, but for the column.
An error without a column is dropped at all those levels; with a column it is shown, and the line
begins with what is left of the place. -/
theorem simplifyLine_headerDiagnostic :
    removeHeaderLocations printed.text = printed.leftover ++ printed.said ∧
      ∀ level, libraryLevel ≤ level →
        (printed.column = none → printed.word = .error →
          simplifyLine level (Diagnostic.ofLine printed.text) printed.text = []) ∧
        ∀ numeral, printed.column = some numeral →
          columnText numeral <+:
            simplifyLine level (Diagnostic.ofLine printed.text) printed.text := by
  refine ⟨printed.removeHeaderLocations_text, fun level hidden => ⟨?_, ?_⟩⟩
  · intro noColumn error
    exact printed.simplifyLine_of_error noColumn error hidden
  · intro numeral column
    exact printed.columnText_prefix_simplifyLine column hidden

def listError : HeaderDiagnostic where
  file := "/usr/include/c++/4.4/list"
  line := "12"
  column := none
  word := .error
  message := "no match"
  file_ne_nil := by decide
  colon_not_mem_file := by decide
  file_any_isBlank := rfl
  line_isNumeral := by decide
  column_isNumeral := Place.isNumeral_of_mem_none
  inHeader := by decide
  headerless := by decide
  unquoted := by decide

def columnError : HeaderDiagnostic :=
  { listError with column := some "5", column_isNumeral := by decide }

/-- Only the error without a column is dropped. -/
theorem simplifyLine_listError :
    libraryLevel ≤ 2 ∧ listError.column = none ∧ listError.word = .error ∧
      simplifyLine 2 (Diagnostic.ofLine listError.text) listError.text = [] ∧
      columnError.column = some "5".toList ∧
      ":5:".toList <+: simplifyLine 2 (Diagnostic.ofLine columnError.text) columnError.text := by
  have hidden : libraryLevel ≤ 2 := by decide
  obtain ⟨-, plain⟩ := simplifyLine_headerDiagnostic listError
  obtain ⟨-, numbered⟩ := simplifyLine_headerDiagnostic columnError
  exact ⟨hidden, rfl, rfl, (plain 2 hidden).1 rfl rfl, rfl, (numbered 2 hidden).2 "5" rfl⟩

/-- With its column the error is shown, behind what is left of its place. -/
theorem simplifyLine_columnError :
    columnError.text = "/usr/include/c++/4.4/list:12:5: error: no match" ∧
      removeHeaderLocations columnError.text = ":5: error: no match" ∧
      simplifyLine 2 (Diagnostic.ofLine columnError.text) columnError.text =
        ":5: error: no match" := by
  decide +kernel

end HeaderDiagnostic

end CompilerFront.Simplify
