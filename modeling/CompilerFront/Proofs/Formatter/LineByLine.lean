import CompilerFront.Formatter

set_option autoImplicit false

namespace CompilerFront

namespace Text

theorem lines_ne_nil {text : Text} (solid : text ≠ []) : lines text ≠ [] := by
  induction text with
  | nil => exact absurd rfl solid
  | cons c rest ih =>
      rw [lines]
      split
      · exact List.cons_ne_nil _ _
      · split
        · rename_i feeds
          apply ih
          rintro rfl
          cases feeds.2
        · unfold consHead
          split <;> exact List.cons_ne_nil _ _

theorem consHead_append (c : Char) {pieces : List Text} (started : pieces ≠ [])
    (others : List Text) : consHead c (pieces ++ others) = consHead c pieces ++ others := by
  obtain ⟨piece, pieces, rfl⟩ := List.exists_cons_of_ne_nil started
  rfl

/-- The empty line that a line feed ends behind a text in which every line is ended already. -/
def emptyLineBehind (text : Text) : List Text :=
  if ∀ c ∈ text.getLast?, c = '\n' then [[]] else []

theorem emptyLineBehind_cons {c : Char} {rest : Text} (solid : rest ≠ []) :
    emptyLineBehind (c :: rest) = emptyLineBehind rest := by
  obtain ⟨d, others, rfl⟩ := List.exists_cons_of_ne_nil solid
  rw [emptyLineBehind, List.getLast?_cons_cons, emptyLineBehind]

/-- A line feed ends the last line of what stands in front of it. Only a carriage return there would
become part of the line's end. -/
theorem lines_append_newline {front : Text} (clean : front.getLast? ≠ some '\r') (behind : Text) :
    lines (front ++ '\n' :: behind) = lines front ++ emptyLineBehind front ++ lines behind := by
  induction front with
  | nil => rfl
  | cons c rest ih =>
      cases rest with
      | nil =>
          have noReturn : c ≠ '\r' := fun same => clean (congrArg some same)
          by_cases feeds : c = '\n' <;> simp [lines, emptyLineBehind, consHead, feeds, noReturn]
      | cons d rest =>
          have started : d :: rest ≠ [] := List.cons_ne_nil d rest
          have shorter := ih (by rwa [List.getLast?_cons_cons] at clean)
          have sameHead : (d :: rest ++ '\n' :: behind).head? = (d :: rest).head? := rfl
          rw [List.cons_append, lines, lines, sameHead, shorter, emptyLineBehind_cons started]
          split
          · rfl
          · split
            · rfl
            · rw [List.append_assoc, consHead_append c (lines_ne_nil started), List.append_assoc]

end Text

namespace Formatter

def shownLines (colour : Bool) (level : Nat) (text : Text) : List Text :=
  (Text.lines text).filterMap (showLine colour level)

section

variable (colour : Bool) (level : Nat)

theorem ne_nil_of_showLine {line shown : Text} (kept : showLine colour level line = some shown) :
    shown ≠ [] := by
  simp only [showLine] at kept
  split at kept
  · cases kept
  · rename_i simplified
    rw [List.isEmpty_iff] at simplified
    split at kept
    · rw [← Option.some.inj kept]
      split
      · simp [Colour.paint, Colour.code_ne_nil]
      · exact simplified
    · rwa [← Option.some.inj kept]

theorem ne_nil_of_mem_shownLines {text shown : Text}
    (inside : shown ∈ shownLines colour level text) : shown ≠ [] := by
  obtain ⟨line, -, kept⟩ := List.mem_filterMap.mp inside
  exact ne_nil_of_showLine colour level kept

theorem showLine_nil : showLine colour level [] = none := by
  apply showLine_of_dropped
  rw [Simplify.simplifyLine]
  split
  · rfl
  · simp

theorem filterMap_showLine_emptyLineBehind (text : Text) :
    (Text.emptyLineBehind text).filterMap (showLine colour level) = [] := by
  unfold Text.emptyLineBehind
  split
  · rw [List.filterMap_cons_none (showLine_nil colour level), List.filterMap_nil]
  · rfl

theorem shownLines_append_newline {first : Text} (clean : first.getLast? ≠ some '\r')
    (second : Text) :
    shownLines colour level (first ++ '\n' :: second) =
      shownLines colour level first ++ shownLines colour level second := by
  rw [shownLines, Text.lines_append_newline clean, List.filterMap_append, List.filterMap_append,
    filterMap_showLine_emptyLineBehind, List.append_nil, shownLines, shownLines]

end

/-- What is shown of a text that is cut at a line feed is what is shown of its two parts, with a
line feed between them if something is shown of both. Only a carriage return in front of the line
feed would be lost in the cut. -/
theorem presentOutput_append_newline (paintsMessages paintsOutput colour : Bool) (level : Nat)
    {first : Text} (clean : first.getLast? ≠ some '\r') (second : Text) :
    let shown := (Formatter.rich paintsMessages paintsOutput).presentOutput colour level
    shown (first ++ '\n' :: second) =
      if shown first = [] then shown second
      else if shown second = [] then shown first
      else shown first ++ "\n" ++ shown second := by
  intro shown
  have lineByLine (text : Text) :
      shown text = Text.joinWith "\n" (shownLines (colour && paintsOutput) level text) := rfl
  have empty (text : Text) :
      shown text = [] ↔ shownLines (colour && paintsOutput) level text = [] := by
    rw [lineByLine]
    exact Text.joinWith_eq_nil_iff fun _ inside => ne_nil_of_mem_shownLines _ level inside
  have cut : shown (first ++ '\n' :: second) =
      Text.joinWith "\n" (shownLines (colour && paintsOutput) level first ++
        shownLines (colour && paintsOutput) level second) := by
    rw [lineByLine, shownLines_append_newline _ level clean]
  rw [cut]
  split
  · rename_i firstEmpty
    rw [(empty first).mp firstEmpty, List.nil_append, lineByLine]
  · rename_i firstShown
    split
    · rename_i secondEmpty
      rw [(empty second).mp secondEmpty, List.append_nil, lineByLine]
    · rename_i secondShown
      rw [Text.joinWith_append "\n" (mt (empty first).mpr firstShown)
        (mt (empty second).mpr secondShown), lineByLine, lineByLine]

/-- An error with the line feed that ends it, and a note behind a line that is dropped. -/
theorem presentOutput_errorThenNote :
    let first : Text := "a.c:1: error: ‘std::list<int>’\r\n"
    let second : Text := "  from b.h:2,\nb.h:4: note: here"
    let shown := (Formatter.rich true true).presentOutput true 1
    first.getLast? ≠ some '\r' ∧
      shown (first ++ '\n' :: second) =
        DiagnosticKind.error.colour.paint "a.c:1: error: ‘list<int>’" ++ "\n" ++
          DiagnosticKind.note.colour.paint "b.h:4: note: here" := by
  intro first second shown
  have clean : first.getLast? ≠ some '\r' := by decide
  have error : shown first = DiagnosticKind.error.colour.paint "a.c:1: error: ‘list<int>’" := by
    decide +kernel
  have note : shown second = DiagnosticKind.note.colour.paint "b.h:4: note: here" := by
    decide +kernel
  refine ⟨clean, ?_⟩
  have cut := presentOutput_append_newline true true true 1 clean second
  simp only [shown] at error note ⊢
  rw [cut, error, note, if_neg (by decide), if_neg (by decide)]

end Formatter

end CompilerFront
