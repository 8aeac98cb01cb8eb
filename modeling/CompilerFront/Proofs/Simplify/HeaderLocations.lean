import CompilerFront.Proofs.Diagnostic.Printed
import CompilerFront.Proofs.Text.Occurrence
import CompilerFront.Simplify.Line

set_option autoImplicit false

namespace CompilerFront.Simplify

theorem isBlind_headerRule : Text.IsBlind headerRule := fun _ _ => rfl

theorem headerRule_of_absent {text : Text} (absent : ¬ systemHeaders <+: text) :
    headerRule none text = none := by
  apply headerRule_of_not_isPrefixOf
  rw [Option.eq_none_iff_forall_not_mem]
  intro after shown
  exact absent ⟨after, List.isPrefixOf?_eq_some_iff_append_eq.mp shown⟩

theorem removeHeaderLocations_of_fire {text written : Text} {used : Nat} (solid : text ≠ [])
    (positive : 0 < used) (fired : headerRule none text = some (written, used)) :
    removeHeaderLocations text = written ++ removeHeaderLocations (text.drop used) :=
  Text.edit_of_fire isBlind_headerRule solid positive fired

theorem removeHeaderLocations_cons {c : Char} {rest : Text}
    (absent : ¬ systemHeaders <+: c :: rest) :
    removeHeaderLocations (c :: rest) = c :: removeHeaderLocations rest := by
  rw [removeHeaderLocations, Text.edit, Text.editFrom_copy (headerRule_of_absent absent),
    Text.editFrom_of_isBlind isBlind_headerRule]
  rfl

theorem removeHeaderLocations_of_absent {text : Text} (absent : ¬ systemHeaders <:+: text) :
    removeHeaderLocations text = text := by
  induction text with
  | nil => rfl
  | cons c rest ih =>
      rw [List.infix_cons_iff, not_or] at absent
      rw [removeHeaderLocations_cons absent.1, ih absent.2]

theorem removeHeaderLocations_append {front : Text} (absent : '/' ∉ front) (rest : Text) :
    removeHeaderLocations (front ++ rest) = front ++ removeHeaderLocations rest := by
  induction front with
  | nil => rfl
  | cons c front ih =>
      have other : '/' ≠ c := List.ne_of_not_mem_cons absent
      have apart : ¬ systemHeaders <+: c :: (front ++ rest) := by
        intro start
        exact other (List.cons_prefix_cons.mp start).1
      rw [List.cons_append, removeHeaderLocations_cons apart,
        ih (List.not_mem_of_not_mem_cons absent), List.cons_append]

theorem systemHeaders_append_ne_nil (rest : Text) : systemHeaders ++ rest ≠ [] :=
  List.append_ne_nil_of_left_ne_nil (by decide) rest

theorem removeHeaderLocations_named {name : Text} (named : name ≠ []) (colonless : ':' ∉ name)
    (behind : Text) :
    removeHeaderLocations (systemHeaders ++ (name ++ ':' :: behind)) =
      removeHeaderLocations (behind.drop (positionLength behind)) := by
  have taken : (name ++ ':' :: behind).takeWhile (· ≠ ':') = name :=
    Text.takeWhile_ne_append_cons colonless behind
  have fired : headerRule none (systemHeaders ++ (name ++ ':' :: behind)) =
      some ([], systemHeaders.length + name.length + 1 + positionLength behind) := by
    have after : systemHeaders.isPrefixOf? (systemHeaders ++ (name ++ ':' :: behind)) =
        some (name ++ ':' :: behind) := List.isPrefixOf?_eq_some_iff_append_eq.mpr rfl
    simp only [headerRule, after, taken, List.drop_left]
    rw [if_neg (by simpa using named)]
  have left : (systemHeaders ++ (name ++ ':' :: behind)).drop
      (systemHeaders.length + name.length + 1 + positionLength behind) =
        behind.drop (positionLength behind) := by
    rw [Nat.add_assoc, Nat.add_assoc, ← List.drop_drop, List.drop_left, ← List.drop_drop,
      List.drop_left, Nat.add_comm, List.drop_succ_cons]
  have positive : 0 < systemHeaders.length + name.length + 1 + positionLength behind := by omega
  rw [removeHeaderLocations_of_fire (systemHeaders_append_ne_nil _) positive fired, left,
    List.nil_append]

theorem removeHeaderLocations_unnamed (behind : Text) :
    removeHeaderLocations (systemHeaders ++ ':' :: behind) =
      systemHeaders ++ removeHeaderLocations (':' :: behind) := by
  have fired : headerRule none (systemHeaders ++ ':' :: behind) =
      some (systemHeaders, systemHeaders.length) := by
    have after : systemHeaders.isPrefixOf? (systemHeaders ++ ':' :: behind) =
        some (':' :: behind) := List.isPrefixOf?_eq_some_iff_append_eq.mpr rfl
    simp [headerRule, after]
  rw [removeHeaderLocations_of_fire (systemHeaders_append_ne_nil _) (by decide) fired,
    List.drop_left]

/-- The position behind a header's name is its line number with what closes the location: a colon
with a space behind it, or a comma that ends the text. -/
theorem drop_positionLength {numeral behind : Text} (isNumeral : Text.isNumeral numeral = true)
    (ended : behind.takeWhile Text.isDigit = []) :
    (numeral ++ behind).drop (positionLength (numeral ++ behind)) =
      if (": " : Text).isPrefixOf behind then behind.drop 2
      else if behind = [','] then [] else behind := by
  simp only [Text.isNumeral, Bool.and_eq_true, Bool.not_eq_true', List.isEmpty_eq_false_iff,
    List.all_eq_true] at isNumeral
  obtain ⟨solid, digits⟩ := isNumeral
  have taken : (numeral ++ behind).takeWhile Text.isDigit = numeral := by
    rw [List.takeWhile_append_of_pos digits, ended, List.append_nil]
  simp only [positionLength, taken, List.drop_left, List.isEmpty_eq_false_iff.mpr solid,
    Bool.false_eq_true, ↓reduceIte]
  split
  · rw [← List.drop_drop, List.drop_left]
  · split
    · rename_i comma
      rw [← List.drop_drop, List.drop_left, comma]
      rfl
    · rw [List.drop_left]

section

open CompilerFront.Diagnostic (Place)

variable {place : Place} {behind : Text}

/-- Without a column all of the place is removed, with what closes it. -/
theorem removeHeaderLocations_place_of_line (inHeader : place.InHeader)
    (noColumn : place.column = none) (ended : behind.takeWhile Text.isDigit = []) :
    removeHeaderLocations (place.text ++ behind) =
      removeHeaderLocations (if (": " : Text).isPrefixOf behind then behind.drop 2
        else if behind = [','] then [] else behind) := by
  obtain ⟨name, named, colonless, file⟩ := inHeader.exists_name
  have split : place.text ++ behind = systemHeaders ++ (name ++ ':' :: (place.line ++ behind)) := by
    rw [Place.text_eq, Place.joinWith_numbers, noColumn, file]
    simp
  rw [split, removeHeaderLocations_named named colonless,
    drop_positionLength place.line_isNumeral ended]

/-- A column stays, with the colon in front of it. -/
theorem removeHeaderLocations_place_of_column (inHeader : place.InHeader) {numeral : Text}
    (column : place.column = some numeral) :
    removeHeaderLocations (place.text ++ behind) =
      removeHeaderLocations (':' :: (numeral ++ behind)) := by
  obtain ⟨name, named, colonless, file⟩ := inHeader.exists_name
  have split : place.text ++ behind =
      systemHeaders ++ (name ++ ':' :: (place.line ++ ':' :: (numeral ++ behind))) := by
    rw [Place.text_eq, Place.joinWith_numbers, column, file]
    simp
  have isNumeral : Text.isNumeral numeral = true := place.column_isNumeral numeral column
  obtain ⟨digit, digits, rfl⟩ :=
    List.exists_cons_of_ne_nil (Text.ne_nil_of_isNumeral isNumeral)
  have apart : ' ' ≠ digit := by
    rintro rfl
    cases Text.isDigit_of_mem isNumeral List.mem_cons_self
  have open_ended : (": " : Text).isPrefixOf (':' :: (digit :: digits ++ behind)) = false := by
    simp [List.isPrefixOf, apart]
  rw [split, removeHeaderLocations_named named colonless,
    drop_positionLength place.line_isNumeral rfl, open_ended]
  simp

end

/-- No colon behind the directory of the headers ends the name of a header: there is none, or the
name would be empty. -/
def IsMention (behind : Text) : Prop := ':' ∉ behind ∨ behind.head? = some ':'

theorem exists_name_of_not_isMention {behind : Text} (location : ¬ IsMention behind) :
    ∃ name rest, behind = name ++ ':' :: rest ∧ name ≠ [] ∧ ':' ∉ name := by
  rw [IsMention, not_or, not_not] at location
  obtain ⟨colon, notFirst⟩ := location
  obtain ⟨name, rest, rfl, colonless⟩ := List.eq_append_cons_of_mem colon
  refine ⟨name, rest, rfl, ?_, colonless⟩
  rintro rfl
  exact notFirst rfl

theorem not_isMention_of_name {name : Text} (named : name ≠ []) (colonless : ':' ∉ name)
    (rest : Text) : ¬ IsMention (name ++ ':' :: rest) := by
  rintro (absent | first)
  · exact absent (List.mem_append_right name List.mem_cons_self)
  · rw [List.head?_append_of_ne_nil _ named] at first
    exact colonless (List.mem_of_head? first)

/-- A mention is copied. -/
theorem removeHeaderLocations_mention {behind : Text} (mention : IsMention behind) :
    removeHeaderLocations (systemHeaders ++ behind) =
      systemHeaders ++ removeHeaderLocations behind := by
  rcases mention with colonless | first
  · have taken : behind.takeWhile (· ≠ ':') = behind := Text.takeWhile_ne_of_not_mem colonless
    have fired : headerRule none (systemHeaders ++ behind) =
        some (systemHeaders, systemHeaders.length) := by
      have after : systemHeaders.isPrefixOf? (systemHeaders ++ behind) = some behind :=
        List.isPrefixOf?_eq_some_iff_append_eq.mpr rfl
      simp only [headerRule, after, taken, List.drop_length]
    rw [removeHeaderLocations_of_fire (systemHeaders_append_ne_nil _) (by decide) fired,
      List.drop_left]
  · obtain ⟨rest, rfl⟩ := List.head?_eq_some_iff.mp first
    exact removeHeaderLocations_unnamed rest

/-- How a text is read from left to right: a character is copied, a mention is copied, or a location
is left out. -/
theorem readingInduction {motive : Text → Prop} (empty : motive [])
    (copied : ∀ c rest, ¬ systemHeaders <+: c :: rest → motive rest → motive (c :: rest))
    (mentioned : ∀ behind, IsMention behind → motive behind → motive (systemHeaders ++ behind))
    (located : ∀ name rest, name ≠ [] → ':' ∉ name →
      motive (rest.drop (positionLength rest)) → motive (systemHeaders ++ (name ++ ':' :: rest)))
    (text : Text) : motive text := by
  induction size : text.length using Nat.strongRecOn generalizing text with
  | ind length ih =>
    subst size
    by_cases start : systemHeaders <+: text
    · obtain ⟨behind, rfl⟩ := start
      have positive : 0 < systemHeaders.length := by decide
      by_cases mention : IsMention behind
      · refine mentioned behind mention (ih _ ?_ behind rfl)
        rw [List.length_append]
        omega
      · obtain ⟨name, rest, rfl, named, colonless⟩ := exists_name_of_not_isMention mention
        refine located name rest named colonless (ih _ ?_ _ rfl)
        simp only [List.length_append, List.length_cons, List.length_drop]
        omega
    · cases text with
      | nil => exact empty
      | cons c rest => exact copied c rest start (ih _ (Nat.lt_succ_self _) rest rfl)

/-- Removing locations makes no text longer. -/
theorem length_removeHeaderLocations_le (text : Text) :
    (removeHeaderLocations text).length ≤ text.length := by
  induction text using readingInduction with
  | empty => exact Nat.le_refl 0
  | copied c rest start ih =>
      rw [removeHeaderLocations_cons start]
      exact Nat.succ_le_succ ih
  | mentioned behind mention ih =>
      rw [removeHeaderLocations_mention mention, List.length_append, List.length_append]
      exact Nat.add_le_add_left ih _
  | located name rest named colonless ih =>
      rw [removeHeaderLocations_named named colonless]
      simp only [List.length_append, List.length_cons]
      rw [List.length_drop] at ih
      omega

/-- The directory does not begin in itself and go on over a colon. -/
theorem behind_of_colon {rest before behind : Text} (started : before ≠ [])
    (same : systemHeaders ++ ':' :: rest = before ++ (systemHeaders ++ behind)) :
    ∃ between, before = systemHeaders ++ between ∧
      ':' :: rest = between ++ (systemHeaders ++ behind) := by
  rcases List.append_eq_append_iff.mp same with found | ⟨overlap, directory, goesOn⟩
  · exact found
  · have shorter : (overlap ++ [':']).length ≤ systemHeaders.length := by
      have lengths := congrArg List.length directory
      have positive := List.length_pos_of_ne_nil started
      rw [List.length_append] at lengths
      rw [List.length_append, List.length_singleton]
      omega
    have start : overlap ++ [':'] <+: systemHeaders ++ behind := ⟨rest, by simp [goesOn]⟩
    have inside : overlap ++ [':'] <+: systemHeaders :=
      List.prefix_of_prefix_length_le start (List.prefix_append _ _) shorter
    have colon : ':' ∈ systemHeaders := inside.mem (by simp)
    exact absurd colon (by decide)

/-- If all that is behind a mention is mentioned only, then so is what begins in the mention. -/
theorem isMention_of_overlap {behind before rest : Text} (mention : IsMention behind)
    (others : ∀ before rest, behind = before ++ (systemHeaders ++ rest) → IsMention rest)
    (same : systemHeaders ++ behind = before ++ (systemHeaders ++ rest)) : IsMention rest := by
  by_cases first : before = []
  · rw [first, List.nil_append] at same
    rwa [← List.append_cancel_left same]
  · rcases mention with colonless | colon
    · have longer : rest.length ≤ behind.length := by
        have lengths := congrArg List.length same
        simp only [List.length_append] at lengths
        omega
      have whole : rest <:+ systemHeaders ++ behind :=
        ⟨before ++ systemHeaders, by rw [same, List.append_assoc]⟩
      have suffix : rest <:+ behind :=
        List.suffix_of_suffix_length_le whole (List.suffix_append _ _) longer
      exact .inl fun inside => colonless (suffix.mem inside)
    · obtain ⟨tail, rfl⟩ := List.head?_eq_some_iff.mp colon
      obtain ⟨between, -, inner⟩ := behind_of_colon first same
      exact others between rest inner

/-- A text stays as it is exactly if the headers in it are only mentioned. -/
theorem removeHeaderLocations_eq_self {text : Text} :
    removeHeaderLocations text = text ↔
      ∀ before behind, text = before ++ (systemHeaders ++ behind) → IsMention behind := by
  induction text using readingInduction with
  | empty =>
      refine ⟨fun _ before behind same => ?_, fun _ => rfl⟩
      have nothing := (List.append_eq_nil_iff.mp same.symm).2
      exact absurd nothing (systemHeaders_append_ne_nil behind)
  | copied c rest start ih =>
      rw [removeHeaderLocations_cons start, List.cons.injEq, eq_self, true_and, ih]
      constructor
      · intro mentions before behind same
        cases before with
        | nil => exact absurd ⟨behind, same.symm⟩ start
        | cons d before => exact mentions before behind (List.cons.inj same).2
      · intro mentions before behind same
        exact mentions (c :: before) behind (by rw [same, List.cons_append])
  | mentioned behind mention ih =>
      rw [removeHeaderLocations_mention mention, List.append_cancel_left_eq, ih]
      constructor
      · intro others before rest same
        exact isMention_of_overlap mention others same
      · intro mentions before rest same
        exact mentions (systemHeaders ++ before) rest (by rw [same, List.append_assoc])
  | located name rest named colonless =>
      constructor
      · intro same
        -- A location that is taken out is not made up for: what is left would be too short.
        have shorter := length_removeHeaderLocations_le (rest.drop (positionLength rest))
        rw [removeHeaderLocations_named named colonless] at same
        rw [same] at shorter
        simp only [List.length_append, List.length_cons, List.length_drop] at shorter
        omega
      · intro mentions
        exact absurd (mentions [] _ rfl) (not_isMention_of_name named colonless rest)

theorem removeHeaderLocations_of_cut? {text front behind : Text}
    (found : Text.cut? systemHeaders text = some (front, behind)) :
    removeHeaderLocations text = front ++ removeHeaderLocations (systemHeaders ++ behind) := by
  induction text generalizing front with
  | nil => cases found
  | cons c rest ih =>
      rw [Text.cut?] at found
      split at found
      · rename_i shown
        obtain ⟨tail, same⟩ := List.isPrefixOf_iff_prefix.mp shown
        rw [← same, List.drop_left, Option.some.injEq, Prod.mk.injEq] at found
        rw [← found.1, ← found.2, ← same, List.nil_append]
      · rename_i apart
        obtain ⟨⟨between, tail⟩, deeper, same⟩ := Option.map_eq_some_iff.mp found
        simp only [Prod.mk.injEq] at same
        obtain ⟨rfl, rfl⟩ := same
        have start : ¬ systemHeaders <+: c :: rest := by
          rwa [← List.isPrefixOf_iff_prefix]
        rw [removeHeaderLocations_cons start, ih deeper, List.cons_append]

/-- The headers in a text are kept exactly if they are only mentioned. Otherwise, at the first of
them, all up to the next colon is lost, with the position behind it. -/
theorem removeHeaderLocations_mentions (text : Text) :
    (removeHeaderLocations text = text ↔
      ∀ before behind, text = before ++ (systemHeaders ++ behind) → IsMention behind) ∧
    ∀ front name behind, Text.cut? systemHeaders text = some (front, name ++ ':' :: behind) →
      name ≠ [] → ':' ∉ name →
      removeHeaderLocations text =
        front ++ removeHeaderLocations (behind.drop (positionLength behind)) := by
  refine ⟨removeHeaderLocations_eq_self, ?_⟩
  intro front name behind found named colonless
  rw [removeHeaderLocations_of_cut? found, removeHeaderLocations_named named colonless]

/-- A header that is spoken of, with a blank between its name and the next colon. -/
def proseLine : Text := "main.cpp:1: note: see /usr/include/stdio.h for details: x"

theorem removeHeaderLocations_proseLine_of_cut? :
    Text.cut? systemHeaders proseLine =
        some ("main.cpp:1: note: see ".toList, "stdio.h for details".toList ++ ':' :: " x".toList) ∧
      removeHeaderLocations proseLine = "main.cpp:1: note: see ".toList ++
        removeHeaderLocations (" x".toList.drop (positionLength " x".toList)) := by
  have found : Text.cut? systemHeaders proseLine =
      some ("main.cpp:1: note: see ".toList,
        "stdio.h for details".toList ++ ':' :: " x".toList) := by
    decide +kernel
  have lost := (removeHeaderLocations_mentions proseLine).2 _ _ _ found
  exact ⟨found, lost (by decide) (by decide)⟩

/-- The words behind the header are lost, although a blank follows each mention of a header before
the next colon. -/
theorem removeHeaderLocations_proseLine :
    (∀ before behind, proseLine = before ++ (systemHeaders ++ behind) →
        ' ' ∈ behind.takeWhile (· ≠ ':')) ∧
      removeHeaderLocations proseLine = "main.cpp:1: note: see  x" := by
  refine ⟨?_, by decide +kernel⟩
  have spoken : ∀ place ≤ proseLine.length, systemHeaders <+: proseLine.drop place →
      ' ' ∈ (proseLine.drop (place + systemHeaders.length)).takeWhile (· ≠ ':') := by
    decide +kernel
  intro before behind same
  have inside : before.length ≤ proseLine.length := by
    rw [same, List.length_append]
    exact Nat.le_add_right _ _
  have here := spoken before.length inside
  rw [same, ← List.drop_drop, List.drop_left, List.drop_left] at here
  exact here (List.prefix_append _ _)

end CompilerFront.Simplify
