import CompilerFront.Proofs.Diagnostic.Quotation
import CompilerFront.Proofs.Diagnostic.Segments
import Mathlib.Data.List.Basic

set_option autoImplicit false

namespace CompilerFront.Diagnostic

inductive KindWord where
  | error
  | fatalError
  | warning
  | note
  deriving DecidableEq, Repr

namespace KindWord

def text : KindWord → Text
  | .error => "error"
  | .fatalError => "fatal error"
  | .warning => "warning"
  | .note => "note"

def kind : KindWord → DiagnosticKind
  | .error | .fatalError => .error
  | .warning => .warning
  | .note => .note

theorem ofWord?_text (word : KindWord) : DiagnosticKind.ofWord? word.text = some word.kind := by
  cases word <;> decide

theorem isPart_text (word : KindWord) : IsPart word.text := by
  cases word <;> exact isPart_of_not_mem (by decide) (by decide)

theorem trim_text (word : KindWord) : Text.trim word.text = word.text := by
  cases word <;> decide

theorem isNumeral_text (word : KindWord) : Text.isNumeral word.text = false := by
  cases word <;> decide

end KindWord

theorem digit_ne_colon {c : Char} (digit : Text.isDigit c = true) : c ≠ ':' := by
  rintro rfl
  cases digit

theorem not_isBlank_of_isDigit {c : Char} (digit : Text.isDigit c = true) :
    Text.isBlank c = false := by
  have bounds : 48 ≤ c.toNat ∧ c.toNat ≤ 57 := by
    simp only [Text.isDigit, Char.isDigit, ge_iff_le, Bool.and_eq_true, decide_eq_true_eq,
      UInt32.le_iff_toNat_le] at digit
    exact digit
  simp [Text.isBlank, Text.blankRanges]
  omega

theorem isPart_of_isNumeral {numeral : Text} (isNumeral : Text.isNumeral numeral = true) :
    IsPart numeral :=
  isPart_of_not_mem (Text.ne_nil_of_isNumeral isNumeral) fun inside =>
    digit_ne_colon (Text.isDigit_of_mem isNumeral inside) rfl

theorem trim_of_isNumeral {numeral : Text} (isNumeral : Text.isNumeral numeral = true) :
    Text.trim numeral = numeral :=
  Text.trim_of_solid fun _ inside => not_isBlank_of_isDigit (Text.isDigit_of_mem isNumeral inside)

/-- A diagnostic at a place in a file, its message in segments. -/
structure PrintedDiagnostic where
  file : Text
  line : Text
  column : Option Text
  word : KindWord
  segments : List Text
  file_ne_nil : file ≠ []
  colon_not_mem_file : ':' ∉ file
  space_not_mem_file : ' ' ∉ file
  trim_file : Text.trim file = file
  /-- The linker driver speaks under this name. -/
  file_ne_linker : file ≠ "collect2".toList
  line_isNumeral : Text.isNumeral line = true
  column_isNumeral : ∀ numeral ∈ column, Text.isNumeral numeral = true
  segments_ne_nil : segments ≠ []
  segments_isPart : ∀ segment ∈ segments, IsPart segment
  trim_segments : ∀ segment ∈ segments, Text.trim segment = segment
  /-- A comma at the end of a line is no part of it. -/
  comma_not_last : ∀ segment ∈ segments.getLast?, segment.getLast? ≠ some ','

namespace PrintedDiagnostic

variable (printed : PrintedDiagnostic)

def message : Text := Text.joinWith ": " printed.segments

def text : Text :=
  Text.joinWith ":" (printed.file :: printed.line :: printed.column.toList) ++ ": " ++
    Text.joinWith ": " (printed.word.text :: printed.segments)

/-- What the single colons of the line separate. -/
def parts : List Text :=
  printed.file :: printed.line :: printed.column.toList ++
    (printed.word.text :: printed.segments).map (' ' :: ·)

theorem space_joinWith {parts : List Text} (started : parts ≠ []) :
    ' ' :: Text.joinWith ": " parts = Text.joinWith ":" (parts.map (' ' :: ·)) := by
  induction parts with
  | nil => exact absurd rfl started
  | cons part parts ih =>
      cases parts with
      | nil => simp
      | cons next parts =>
          have rest := ih (List.cons_ne_nil next parts)
          have split : Text.joinWith ":" ((part :: next :: parts).map (' ' :: ·)) =
              (' ' :: part) ++ ":" ++ Text.joinWith ":" ((next :: parts).map (' ' :: ·)) :=
            Text.joinWith_cons_cons ":" (' ' :: part) (' ' :: next) _
          rw [split, ← rest, Text.joinWith_cons_cons]
          simp

theorem text_eq_joinWith_parts : printed.text = Text.joinWith ":" printed.parts := by
  rw [text, parts, Text.joinWith_append ":" (by simp) (by simp), ← space_joinWith (by simp)]
  simp

variable {printed}

theorem parts_isPart : ∀ part ∈ printed.parts, IsPart part := by
  intro part inside
  simp only [parts, List.cons_append, List.mem_cons, List.mem_append, Option.mem_toList,
    List.map_cons, List.mem_map] at inside
  rcases inside with rfl | rfl | column | rfl | ⟨segment, inside, rfl⟩
  · exact isPart_of_not_mem printed.file_ne_nil printed.colon_not_mem_file
  · exact isPart_of_isNumeral printed.line_isNumeral
  · exact isPart_of_isNumeral (printed.column_isNumeral _ column)
  · exact printed.word.isPart_text.cons (by decide)
  · exact (printed.segments_isPart segment inside).cons (by decide)

theorem exists_last (printed : PrintedDiagnostic) :
    ∃ segment, printed.segments.getLast? = some segment :=
  Option.isSome_iff_exists.mp (List.getLast?_isSome.mpr printed.segments_ne_nil)

theorem getLast?_parts : printed.parts.getLast? = printed.segments.getLast?.map (' ' :: ·) := by
  obtain ⟨segment, shown⟩ := printed.exists_last
  simp [parts, List.getLast?_append, List.getLast?_cons, shown]

theorem pieces_text : pieces none printed.text = printed.parts := by
  rw [text_eq_joinWith_parts]
  refine pieces_joinWith (by simp [parts]) parts_isPart ?_ none
  intro part last
  rw [getLast?_parts] at last
  obtain ⟨segment, inside, rfl⟩ := Option.map_eq_some_iff.mp last
  have comma := printed.comma_not_last segment inside
  have solid := (printed.segments_isPart segment (List.mem_of_getLast? inside)).ne_nil
  rw [getLast?_cons_of_ne_nil ' ' solid]
  exact comma

theorem trim_text : Text.trim printed.text = printed.text := by
  obtain ⟨fileHead, -⟩ := Text.trim_eq_self_iff.mp printed.trim_file
  obtain ⟨segment, last⟩ := printed.exists_last
  have inside := List.mem_of_getLast? last
  have solid := (printed.segments_isPart segment inside).ne_nil
  obtain ⟨-, segmentLast⟩ := Text.trim_eq_self_iff.mp (printed.trim_segments segment inside)
  have ends : printed.parts.getLast? = some (' ' :: segment) := by
    rw [getLast?_parts, last]
    rfl
  obtain ⟨others, shape⟩ := List.getLast?_eq_some_iff.mp ends
  have textHead : printed.text.head? = printed.file.head? := by
    rw [text_eq_joinWith_parts]
    exact Text.head?_joinWith ":" printed.file_ne_nil _
  have textLast : printed.text.getLast? = segment.getLast? := by
    rw [text_eq_joinWith_parts, shape,
      Text.getLast?_joinWith_concat ":" others (List.cons_ne_nil ' ' segment),
      getLast?_cons_of_ne_nil ' ' solid]
  rw [Text.trim_eq_self_iff, textHead, textLast]
  exact ⟨fileHead, segmentLast⟩

theorem segments_text :
    Diagnostic.segments printed.text = printed.file :: printed.line ::
      (printed.column.toList ++ printed.word.text :: printed.segments) := by
  have columns : printed.column.toList.map Text.trim = printed.column.toList := by
    refine (List.map_congr_left fun numeral inside => ?_).trans (List.map_id _)
    exact trim_of_isNumeral (printed.column_isNumeral numeral (Option.mem_toList.mp inside))
  have messages : (printed.segments.map (' ' :: ·)).map Text.trim = printed.segments := by
    rw [List.map_map]
    refine (List.map_congr_left fun segment inside => ?_).trans (List.map_id _)
    exact (Text.trim_cons_of_isBlank (by decide) segment).trans
      (printed.trim_segments segment inside)
  rw [Diagnostic.segments, pieces_text, parts, List.map_append, List.map_cons, List.map_cons,
    List.map_cons, List.map_cons, columns, messages, Text.trim_cons_of_isBlank (by decide),
    printed.trim_file, trim_of_isNumeral printed.line_isNumeral, KindWord.trim_text]
  rfl

/-- A name without a space does not begin with the words of an include chain. -/
theorem withoutChainWords_of_not_mem {name : Text} (absent : ' ' ∉ name) :
    withoutChainWords name = name := by
  have apart {words : Text} (spaced : ' ' ∈ words) : words.isPrefixOf? name = none := by
    cases shown : words.isPrefixOf? name with
    | none => rfl
    | some rest =>
        rw [List.isPrefixOf?_eq_some_iff_append_eq] at shown
        rw [← shown] at absent
        exact absurd (List.mem_append_left rest spaced) absent
  simp only [withoutChainWords, apart (show ' ' ∈ ("In file included from" : Text) by decide),
    apart (show ' ' ∈ ("from " : Text) by decide)]

theorem isLinkerReference_of_isNumeral {numeral : Text}
    (isNumeral : Text.isNumeral numeral = true) : isLinkerReference numeral = false := by
  cases shown : ("(." : Text).isPrefixOf? numeral with
  | none => simp only [isLinkerReference, shown]
  | some rest =>
      rw [List.isPrefixOf?_eq_some_iff_append_eq] at shown
      rw [← shown] at isNumeral
      cases isNumeral

theorem takeColumn_text :
    takeColumn (printed.column.toList ++ printed.word.text :: printed.segments) =
      (printed.column.bind position?, printed.word.text :: printed.segments) := by
  cases shown : printed.column with
  | none => simp [takeColumn, KindWord.isNumeral_text]
  | some numeral => simp [takeColumn, printed.column_isNumeral numeral shown]

theorem takeKind_text :
    takeKind (printed.word.text :: printed.segments) = (printed.word.kind, printed.segments) := by
  simp only [takeKind, KindWord.ofWord?_text]

/-- A name that a line number follows names the file. -/
theorem ofSegments_of_isNumeral {name numeral : Text} (named : name ≠ []) (solid : ' ' ∉ name)
    (notLinker : name ≠ "collect2".toList) (isNumeral : Text.isNumeral numeral = true)
    (rest : List Text) :
    ofSegments (name :: numeral :: rest) =
      { unclassified with
        kind := some (takeKind (takeColumn rest).2).1
        file := name
        line := position? numeral
        column := (takeColumn rest).1
        inSystemHeader := systemHeaders.isPrefixOf name }.withMessage
          (takeKind (takeColumn rest).2).2 := by
  have filled : (name.isEmpty || name.contains ' ') = false := by
    simp [named, solid]
  rw [ofSegments, withoutChainWords_of_not_mem solid, if_neg notLinker, filled, located,
    isLinkerReference_of_isNumeral isNumeral, isNumeral]
  rfl

theorem ofLine_eq_withMessage :
    ofLine printed.text =
      { unclassified with
        kind := some printed.word.kind
        file := printed.file
        line := position? printed.line
        column := printed.column.bind position?
        inSystemHeader := systemHeaders.isPrefixOf printed.file }.withMessage printed.segments := by
  rw [ofLine, trim_text, segments_text, ofSegments_of_isNumeral printed.file_ne_nil
    printed.space_not_mem_file printed.file_ne_linker printed.line_isNumeral, takeColumn_text,
    takeKind_text]

/-- Reading a printed diagnostic gives back its parts: the numbers, if they have 32 bits, and as the
code that it is about the fragments quoted in the message, or, if none is quoted, the message without
the words that announce candidates. -/
theorem ofLine_text (printed : PrintedDiagnostic) :
    ∃ quoted : QuotedText, quoted.text = printed.message ∧
      ofLine printed.text =
        { kind := some printed.word.kind
          file := printed.file
          line :=
            if Text.decimalValue printed.line ≤ 4294967295 then
              some (Text.decimalValue printed.line)
            else none
          column := printed.column.bind fun numeral =>
            if Text.decimalValue numeral ≤ 4294967295 then some (Text.decimalValue numeral)
            else none
          inSystemHeader := decide (systemHeaders <+: printed.file)
          message := printed.message
          fragments :=
            if quoted.fragments = [] then
              if named printed.segments = [] then []
              else [Text.joinWith ":" (named printed.segments)]
            else quoted.fragments } := by
  obtain ⟨quoted, same⟩ := QuotedText.exists_text_eq printed.message
  have solid : ∀ segment ∈ printed.segments, segment ≠ [] :=
    fun segment inside => (printed.segments_isPart segment inside).ne_nil
  have header : decide (systemHeaders <+: printed.file) = systemHeaders.isPrefixOf printed.file := by
    rw [Bool.eq_iff_iff, decide_eq_true_iff, List.isPrefixOf_iff_prefix]
  refine ⟨quoted, same, ?_⟩
  rw [ofLine_eq_withMessage, ← fragments_withMessage solid same unclassified, header]
  rfl

/-- An error in a header, with a column beyond 32 bits and an empty quotation. -/
def headerError : PrintedDiagnostic where
  file := "/usr/include/c++/v"
  line := "012"
  column := some "4294967296"
  word := .fatalError
  segments := ["no ‘std::a’", "in ‘’,‘b’"]
  file_ne_nil := by decide
  colon_not_mem_file := by decide
  space_not_mem_file := by decide
  trim_file := by decide
  file_ne_linker := by decide
  line_isNumeral := by decide
  column_isNumeral := by decide
  segments_ne_nil := by decide
  segments_isPart := by decide
  trim_segments := by decide
  comma_not_last := by decide

theorem ofLine_headerError :
    ofLine "/usr/include/c++/v:012:4294967296: fatal error: no ‘std::a’: in ‘’,‘b’" =
      { kind := some .error
        file := "/usr/include/c++/v"
        line := some 12
        column := none
        inSystemHeader := true
        message := "no ‘std::a’: in ‘’,‘b’"
        fragments := ["std::a", "b"] } := by
  obtain ⟨quoted, same, read⟩ := ofLine_text headerError
  have fragments : quoted.fragments = (["std::a", "b"] : List Text) := by
    rw [← quoted.quotations_text, same]
    decide
  rw [fragments] at read
  have printed : headerError.text =
      "/usr/include/c++/v:012:4294967296: fatal error: no ‘std::a’: in ‘’,‘b’".toList := by decide
  rw [← printed, read]
  decide

end PrintedDiagnostic

/-- A place in a file: a line, and a column if the compiler knows it. -/
structure Place where
  file : Text
  line : Text
  column : Option Text
  file_ne_nil : file ≠ []
  colon_not_mem_file : ':' ∉ file
  file_any_isBlank : file.any Text.isBlank = false
  line_isNumeral : Text.isNumeral line = true
  column_isNumeral : ∀ numeral ∈ column, Text.isNumeral numeral = true

namespace Place

variable (place : Place)

/-- The numbers behind the file. -/
def numbers : List Text := place.line :: place.column.toList

def text : Text := Text.joinWith ":" (place.file :: place.numbers)

/-- The file is a header of the system: it has a name in the directory of such headers. -/
def InHeader : Prop := systemHeaders <+: place.file ∧ place.file ≠ systemHeaders

instance : Decidable place.InHeader := inferInstanceAs (Decidable (_ ∧ _))

variable {place}

theorem InHeader.exists_name (inHeader : place.InHeader) :
    ∃ name, name ≠ [] ∧ ':' ∉ name ∧ place.file = systemHeaders ++ name := by
  obtain ⟨⟨name, same⟩, more⟩ := inHeader
  refine ⟨name, ?_, ?_, same.symm⟩
  · rintro rfl
    exact more (by rw [← same, List.append_nil])
  · intro inside
    have colon : ':' ∈ place.file := by
      rw [← same]
      exact List.mem_append_right _ inside
    exact place.colon_not_mem_file colon

theorem file_solid (place : Place) : ∀ c ∈ place.file, Text.isBlank c = false :=
  fun c inside => Bool.eq_false_iff.mpr fun blank =>
    List.any_eq_false.mp place.file_any_isBlank c inside blank

theorem space_not_mem_file : ' ' ∉ place.file := by
  intro inside
  cases place.file_solid ' ' inside

theorem isNumeral_of_mem_none :
    ∀ numeral ∈ (none : Option Text), Text.isNumeral numeral = true := by
  intro numeral absurdity
  cases absurdity

theorem numbers_isNumeral : ∀ number ∈ place.numbers, Text.isNumeral number = true := by
  intro number inside
  rcases List.mem_cons.mp inside with rfl | inside
  · exact place.line_isNumeral
  · exact place.column_isNumeral number (Option.mem_toList.mp inside)

theorem numbers_isPart : ∀ number ∈ place.numbers, IsPart number :=
  fun number inside => isPart_of_isNumeral (numbers_isNumeral number inside)

theorem map_trim_numbers : place.numbers.map Text.trim = place.numbers := by
  refine (List.map_congr_left fun number inside => ?_).trans (List.map_id _)
  exact trim_of_isNumeral (numbers_isNumeral number inside)

theorem text_eq : place.text = place.file ++ ':' :: Text.joinWith ":" place.numbers := by
  rw [text, numbers, Text.joinWith_cons_cons, List.append_assoc]
  rfl

/-- A line that begins with a place begins with no blank. -/
theorem trimStart_text_append (rest : Text) :
    Text.trimStart (place.text ++ rest) = place.text ++ rest := by
  rw [Text.trimStart_eq_self_iff, text_eq, List.append_assoc,
    List.head?_append_of_ne_nil _ place.file_ne_nil]
  exact fun c head => place.file_solid c (List.mem_of_head? head)

theorem joinWith_numbers :
    Text.joinWith ":" place.numbers =
      place.line ++ place.column.toList.flatMap fun numeral => ':' :: numeral := by
  rw [numbers]
  cases place.column with
  | none => simp
  | some numeral => simp [Text.joinWith_cons_cons]

theorem takeColumn_toList {rest : List Text}
    (other : ∀ segment ∈ rest.head?, Text.isNumeral segment = false) :
    takeColumn (place.column.toList ++ rest) = (place.column.bind position?, rest) := by
  cases shown : place.column with
  | some numeral => simp [takeColumn, place.column_isNumeral numeral shown]
  | none =>
      cases rest with
      | nil => rfl
      | cons segment rest =>
          have apart : Text.isNumeral segment = false := other segment rfl
          simp [takeColumn, apart]

/-- The segments of a line in which some words stand in front of a place and something is cut off
behind it. -/
theorem segments_text {words rest : Text} {c : Char} (colonless : ':' ∉ words)
    (started : ∀ d ∈ (words ++ place.file).head?, Text.isBlank d = false)
    (isCutOff : ∀ left, left ≠ some ':' → isCut left c rest = true) :
    segments (words ++ place.text ++ c :: rest) =
      (words ++ place.file) :: place.numbers ++ (pieces (some c) rest).map Text.trim := by
  have solid : words ++ place.file ≠ [] := by
    intro empty
    exact place.file_ne_nil (List.append_eq_nil_iff.mp empty).2
  have absent : ':' ∉ words ++ place.file := by
    intro inside
    rcases List.mem_append.mp inside with inside | inside
    · exact colonless inside
    · exact place.colon_not_mem_file inside
  have areParts : ∀ part ∈ (words ++ place.file) :: place.numbers, IsPart part :=
    List.forall_mem_cons.mpr ⟨isPart_of_not_mem solid absent, numbers_isPart⟩
  have joined : words ++ place.text =
      Text.joinWith ":" ((words ++ place.file) :: place.numbers) := by
    rw [text, numbers, Text.joinWith_cons_cons, Text.joinWith_cons_cons]
    simp only [List.append_assoc]
  have trimmed : Text.trim (words ++ place.file) = words ++ place.file := by
    refine Text.trim_eq_self_iff.mpr ⟨started, fun d last => ?_⟩
    rw [List.getLast?_append_of_ne_nil words place.file_ne_nil] at last
    exact place.file_solid d (List.mem_of_getLast? last)
  rw [segments, joined, pieces_joinWith_append (by simp) areParts isCutOff, List.map_append,
    List.map_cons, trimmed, map_trim_numbers]

end Place

end CompilerFront.Diagnostic
