import CompilerFront.Simplify.Line
import CompilerFront.Proofs.Text.Trim

set_option autoImplicit false

namespace CompilerFront.Simplify

/-- What holds no blank is read into the word at hand. -/
theorem foldr_wordStep_append {front : Text} (solid : ∀ c ∈ front, Text.isBlank c = false)
    (state : Text × List Text) :
    front.foldr Text.wordStep state = (front ++ state.1, state.2) := by
  induction front with
  | nil => rfl
  | cons c front ih =>
      obtain ⟨first, others⟩ := List.forall_mem_cons.mp solid
      rw [List.foldr_cons, ih others, Text.wordStep, first]
      rfl

theorem words_append {front : Text} (started : front ≠ [])
    (solid : ∀ c ∈ front, Text.isBlank c = false) (rest : Text) :
    ∃ more others, Text.words (front ++ rest) = (front ++ more) :: others := by
  have filled (more : Text) : (front ++ more).isEmpty = false := by
    simp [started]
  refine ⟨(rest.foldr Text.wordStep ([], [])).1, (rest.foldr Text.wordStep ([], [])).2, ?_⟩
  simp only [Text.words, List.foldr_append, foldr_wordStep_append solid, filled,
    Bool.false_eq_true, if_false]

/-- Lines are filled behind what stands on the first of them. -/
theorem prefix_joinWith_fillFrom (width : Nat) (line : Text) (words : List Text) :
    line <+: Text.joinWith "\n" (fillFrom width line words) := by
  induction words generalizing line with
  | nil =>
      have alone : Text.joinWith "\n" (fillFrom width line []) = line :=
        Text.joinWith_singleton "\n" line
      exact alone.symm ▸ List.prefix_rfl
  | cons word words ih =>
      by_cases full : width < line.length + 1 + word.length
      · obtain ⟨second, others, shape⟩ :=
          List.exists_cons_of_ne_nil (fillFrom_ne_nil width (indentation ++ word) words)
        rw [fillFrom_of_lt words full, shape, Text.joinWith_cons_cons, List.append_assoc]
        exact List.prefix_append line _
      · rw [fillFrom_of_le words (Nat.not_lt.mp full)]
        exact (List.prefix_append line _).trans (ih _)

theorem prefix_fillLine {front : Text} (started : front ≠ [])
    (solid : ∀ c ∈ front, Text.isBlank c = false) (rest : Text) :
    front <+: fillLine (front ++ rest) := by
  obtain ⟨more, others, shape⟩ := words_append started solid rest
  rw [fillLine, shape]
  exact (List.prefix_append front more).trans (prefix_joinWith_fillFrom lineWidth _ others)

theorem exists_start {text : Text} (shown : Text.trimEnd text ≠ []) :
    ∃ blanks c rest, text = blanks ++ c :: rest ∧ Text.isAllBlank blanks = true ∧
      Text.isBlank c = false := by
  obtain ⟨blanks, same, blank⟩ := Text.blanks_append_trimStart text
  cases start : Text.trimStart text with
  | nil =>
      rw [start, List.append_nil] at same
      exact absurd (Text.trimEnd_of_isAllBlank (same ▸ blank)) shown
  | cons c rest =>
      have solid : Text.isBlank c = false := by
        have head := Text.head?_trimStart text
        rw [start] at head
        exact head c rfl
      exact ⟨blanks, c, rest, start ▸ same, blank, solid⟩

theorem words_ne_nil {text : Text} (shown : Text.trimEnd text ≠ []) : Text.words text ≠ [] := by
  obtain ⟨blanks, c, rest, rfl, blank, solid⟩ := exists_start shown
  obtain ⟨more, others, shape⟩ :=
    words_append (List.cons_ne_nil c []) (List.forall_mem_singleton.mpr solid) rest
  rw [List.singleton_append] at shape
  rw [Text.words_append_of_isAllBlank blank, shape]
  exact List.cons_ne_nil _ _

theorem fillLine_ne_nil {line : Text} (shown : Text.trimEnd line ≠ []) : fillLine line ≠ [] := by
  obtain ⟨blanks, c, rest, rfl, blank, solid⟩ := exists_start shown
  have first : [c] <+: fillLine ([c] ++ rest) :=
    prefix_fillLine (List.cons_ne_nil c []) (List.forall_mem_singleton.mpr solid) rest
  rw [fillLine, Text.words_append_of_isAllBlank blank]
  exact List.ne_nil_of_mem (first.mem List.mem_cons_self)

end CompilerFront.Simplify
