import CompilerFront.Formatter
import CompilerFront.Proofs.Text.Occurrence
import CompilerFront.Proofs.Text.Trim

set_option autoImplicit false

namespace CompilerFront

namespace Text

theorem separator_not_mem_splitOn {separator : Char} {text : Text} :
    ∀ piece ∈ text.splitOn separator, separator ∉ piece := by
  induction text with
  | nil => simp
  | cons c rest ih =>
      obtain ⟨piece, pieces, started⟩ :=
        List.exists_cons_of_ne_nil (List.splitOn_ne_nil separator rest)
      rw [started, List.forall_mem_cons] at ih
      rw [List.splitOn_cons_eq_if_modifyHead, started]
      by_cases cuts : c = separator
      · rw [if_pos (beq_iff_eq.mpr cuts), List.forall_mem_cons, List.forall_mem_cons]
        exact ⟨List.not_mem_nil, ih⟩
      · rw [if_neg (beq_iff_eq.not.mpr cuts), List.modifyHead_cons, List.forall_mem_cons]
        exact ⟨List.not_mem_cons_of_ne_of_not_mem (Ne.symm cuts) ih.1, ih.2⟩

/-- Lines without carriage returns are the pieces between the line feeds, where the text does not
end in one. -/
theorem lines_eq_splitOn {text : Text} (solid : text ≠ []) (plain : '\r' ∉ text)
    (ended : text.getLast? ≠ some '\n') : lines text = text.splitOn '\n' := by
  induction text with
  | nil => exact absurd rfl solid
  | cons c rest ih =>
      have notReturn : c ≠ '\r' := (List.ne_of_not_mem_cons plain).symm
      cases rest with
      | nil =>
          have notFeed : c ≠ '\n' := by
            rintro rfl
            exact ended rfl
          simp [lines, List.splitOn_cons_eq_if_modifyHead, notFeed, notReturn, consHead]
      | cons d rest =>
          have deeper := ih (List.cons_ne_nil d rest) (List.not_mem_of_not_mem_cons plain)
            (by simpa [List.getLast?_cons_cons] using ended)
          obtain ⟨piece, pieces, started⟩ :=
            List.exists_cons_of_ne_nil (List.splitOn_ne_nil '\n' (d :: rest))
          rw [lines, List.splitOn_cons_eq_if_modifyHead, deeper, started]
          simp [notReturn, consHead]

theorem nil_mem_splitOn_iff {separator : Char} {text : Text}
    (begun : ∀ c ∈ text.head?, c ≠ separator) (ended : ∀ c ∈ text.getLast?, c ≠ separator)
    (solid : text ≠ []) : [] ∈ text.splitOn separator ↔ [separator, separator] <:+: text := by
  constructor
  · intro inside
    obtain ⟨before, behind, pieces⟩ := List.append_of_mem inside
    have whole : joinWith [separator] (text.splitOn separator) = text :=
      List.intercalate_splitOn separator
    rw [pieces] at whole
    cases before with
    | nil =>
        cases behind with
        | nil => exact absurd whole.symm solid
        | cons next behind =>
            rw [List.nil_append, joinWith_cons_cons] at whole
            rw [← whole] at begun
            exact absurd rfl (begun separator rfl)
    | cons first before =>
        rw [joinWith_append _ (List.cons_ne_nil first before) (List.cons_ne_nil [] behind)] at whole
        cases behind with
        | nil =>
            rw [joinWith_singleton, List.append_nil] at whole
            rw [← whole] at ended
            exact absurd rfl (ended separator (List.getLast?_concat))
        | cons next behind =>
            rw [joinWith_cons_cons, List.nil_append] at whole
            refine ⟨joinWith [separator] (first :: before), joinWith [separator] (next :: behind), ?_⟩
            rw [← whole]
            simp
  · rintro ⟨before, behind, rfl⟩
    rw [List.append_assoc]
    simp only [List.cons_append, List.nil_append, List.splitOn_append_cons_self]
    exact List.mem_append_right _ (by simp [List.splitOn_cons_eq_if_modifyHead])

end Text

namespace Formatter

theorem showLine_zero (line : Text) :
    showLine false 0 line = if line = [] then none else some line := by
  simp only [showLine, Simplify.simplifyLine_zero]
  cases line with
  | nil => rfl
  | cons c rest => cases (Diagnostic.ofLine (c :: rest)).kind <;> rfl

theorem filterMap_showLine_zero (lines : List Text) :
    lines.filterMap (showLine false 0) = lines.filter (· ≠ []) := by
  rw [funext showLine_zero, ← List.filterMap_eq_filter]
  congr 1
  funext line
  by_cases empty : line = [] <;> simp [Option.guard, empty]

/-- A text that neither begins nor ends with a line feed is joined again from its pieces without the
empty ones exactly if it has no empty piece. -/
theorem joinWith_filter_splitOn_iff {text : Text} (solid : text ≠ []) :
    Text.joinWith ['\n'] ((text.splitOn '\n').filter (· ≠ [])) = text ↔
      [] ∉ text.splitOn '\n' := by
  constructor
  · intro same inside
    have kept : (text.splitOn '\n').filter (· ≠ []) ≠ [] := by
      intro none
      rw [none] at same
      exact solid same.symm
    have again : (Text.joinWith ['\n'] ((text.splitOn '\n').filter (· ≠ []))).splitOn '\n' =
        (text.splitOn '\n').filter (· ≠ []) :=
      List.splitOn_intercalate '\n' (fun piece listed =>
        Text.separator_not_mem_splitOn piece (List.mem_filter.mp listed).1) kept
    rw [same] at again
    rw [again] at inside
    simpa using (List.mem_filter.mp inside).2
  · intro absent
    have whole : (text.splitOn '\n').filter (· ≠ []) = text.splitOn '\n' := by
      refine List.filter_eq_self.mpr fun piece listed => ?_
      rw [decide_eq_true_eq]
      rintro rfl
      exact absent listed
    rw [whole]
    exact List.intercalate_splitOn '\n'

/-- At level 0 and without colours the empty lines of a text are left out, so that the text is
unchanged exactly if no two line feeds stand in a row in it. -/
theorem presentOutput_zero (paintsMessages paintsOutput : Bool) {text : Text}
    (plain : '\r' ∉ text) (trimmed : Text.trim text = text) :
    (Formatter.rich paintsMessages paintsOutput).presentOutput false 0 text =
        Text.joinWith "\n" ((text.splitOn '\n').filter (· ≠ [])) ∧
      ((Formatter.rich paintsMessages paintsOutput).presentOutput false 0 text = text ↔
        ¬ ['\n', '\n'] <:+: text) := by
  by_cases solid : text = []
  · subst solid
    exact ⟨rfl, iff_of_true rfl (by decide)⟩
  · obtain ⟨starts, ends⟩ := Text.trim_eq_self_iff.mp trimmed
    have feedIsBlank : Text.isBlank '\n' = true := by decide
    have begun : ∀ c ∈ text.head?, c ≠ '\n' := by
      rintro c first rfl
      rw [starts '\n' first] at feedIsBlank
      cases feedIsBlank
    have ended : ∀ c ∈ text.getLast?, c ≠ '\n' := by
      rintro c last rfl
      rw [ends '\n' last] at feedIsBlank
      cases feedIsBlank
    have shown : (Formatter.rich paintsMessages paintsOutput).presentOutput false 0 text =
        Text.joinWith ['\n'] ((text.splitOn '\n').filter (· ≠ [])) := by
      rw [presentOutput, Bool.false_and, filterMap_showLine_zero,
        Text.lines_eq_splitOn solid plain fun last => ended '\n' last rfl]
      rfl
    refine ⟨shown, ?_⟩
    rw [shown, joinWith_filter_splitOn_iff solid, Text.nil_mem_splitOn_iff begun ended solid]

def quotedError : Text := "a.c:1: error: x\n  y"

theorem presentOutput_quotedError :
    '\r' ∉ quotedError ∧ Text.trim quotedError = quotedError ∧
      (Formatter.rich true true).presentOutput false 0 quotedError = quotedError := by
  have plain : '\r' ∉ quotedError := by decide +kernel
  have trimmed : Text.trim quotedError = quotedError := by decide +kernel
  have apart : ¬ ['\n', '\n'] <:+: quotedError := by
    rw [← Text.occursIn_iff_infix]
    decide +kernel
  exact ⟨plain, trimmed, (presentOutput_zero true true plain trimmed).2.mpr apart⟩

def parted : Text := "a\n\nb"

/-- The empty line is lost. -/
theorem presentOutput_parted :
    '\r' ∉ parted ∧ Text.trim parted = parted ∧
      (Formatter.rich false false).presentOutput false 0 parted = "a\nb" ∧
      (Formatter.rich false false).presentOutput false 0 parted ≠ parted := by
  decide +kernel

end Formatter

end CompilerFront
