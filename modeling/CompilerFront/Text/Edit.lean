import CompilerFront.Text.Basic

set_option autoImplicit false

/-!
Editing a text in one pass from left to right. A rule sees the character before a position and
the text from there on; where it fires it says what to write and how many characters are used up.
-/
namespace CompilerFront.Text

/-- What to write for the text at a position, and how many characters it stands for; `none` copies
one character. A rule that fires uses up at least one character. -/
abbrev Rule := Option Char → Text → Option (Text × Nat)

/-- Applies a rule from a position on. `skip` characters are still used up by the last firing and
`before` is the character in front of the position. -/
def editFrom (rule : Rule) : Nat → Option Char → Text → Text
  | _, _, [] => []
  | skip + 1, _, c :: rest => editFrom rule skip (some c) rest
  | 0, before, c :: rest =>
    match rule before (c :: rest) with
    | some (written, used) => written ++ editFrom rule (used - 1) (some c) rest
    | none => c :: editFrom rule 0 (some c) rest

def edit (rule : Rule) (text : Text) : Text := editFrom rule 0 none text

@[simp] theorem editFrom_nil (rule : Rule) (skip : Nat) (before : Option Char) :
    editFrom rule skip before [] = [] := by
  cases skip <;> rfl

theorem editFrom_skip (rule : Rule) (skip : Nat) (before : Option Char) (c : Char)
    (rest : Text) :
    editFrom rule (skip + 1) before (c :: rest) = editFrom rule skip (some c) rest := rfl

theorem editFrom_fire {rule : Rule} {before : Option Char} {c : Char} {rest written : Text}
    {used : Nat} (h : rule before (c :: rest) = some (written, used)) :
    editFrom rule 0 before (c :: rest) =
      written ++ editFrom rule (used - 1) (some c) rest := by
  simp [editFrom, h]

theorem editFrom_copy {rule : Rule} {before : Option Char} {c : Char} {rest : Text}
    (h : rule before (c :: rest) = none) :
    editFrom rule 0 before (c :: rest) = c :: editFrom rule 0 (some c) rest := by
  simp [editFrom, h]

theorem editFrom_of_silent {rule : Rule} {text : Text}
    (h : ∀ before suffix, suffix <:+ text → rule before suffix = none) (before : Option Char) :
    editFrom rule 0 before text = text := by
  induction text generalizing before with
  | nil => rfl
  | cons c rest ih =>
    rw [editFrom_copy (h before _ (List.suffix_refl _)),
      ih fun before suffix inside => h before suffix (inside.trans (List.suffix_cons c rest))]

/-- A rule that pays no attention to the character in front. -/
def IsBlind (rule : Rule) : Prop := ∀ before text, rule before text = rule none text

section

variable {rule : Rule}

/-- With a blind rule it does not matter what was edited in front. -/
theorem editFrom_of_isBlind (blind : IsBlind rule) (skip : Nat) (before : Option Char)
    (text : Text) : editFrom rule skip before text = edit rule (text.drop skip) := by
  induction text generalizing skip before with
  | nil => simp [edit]
  | cons c rest ih =>
    cases skip with
    | zero => simp only [edit, List.drop_zero, editFrom, blind before]
    | succ skip => rw [editFrom_skip, ih, List.drop_succ_cons]

theorem edit_of_fire (blind : IsBlind rule) {text written : Text} {used : Nat}
    (solid : text ≠ []) (positive : 0 < used) (fired : rule none text = some (written, used)) :
    edit rule text = written ++ edit rule (text.drop used) := by
  obtain ⟨c, rest, rfl⟩ := List.exists_cons_of_ne_nil solid
  obtain ⟨more, rfl⟩ := Nat.exists_eq_succ_of_ne_zero (Nat.ne_of_gt positive)
  rw [edit, editFrom_fire fired, editFrom_of_isBlind blind]
  rfl

/-- The front of a text is copied if the rule does not fire in it. -/
theorem edit_append_of_silent (blind : IsBlind rule) {front text : Text}
    (silent : ∀ tail, tail <:+ front → tail ≠ [] → rule none (tail ++ text) = none) :
    edit rule (front ++ text) = front ++ edit rule text := by
  induction front with
  | nil => rfl
  | cons c front ih =>
    have here : rule none (c :: (front ++ text)) = none :=
      silent (c :: front) (List.suffix_refl _) (List.cons_ne_nil c front)
    have later : ∀ tail, tail <:+ front → tail ≠ [] → rule none (tail ++ text) = none :=
      fun tail inside => silent tail (inside.trans (List.suffix_cons c front))
    rw [List.cons_append, edit, editFrom_copy here, editFrom_of_isBlind blind, List.drop_zero,
      ih later, List.cons_append]

end

/-- Writes `replacement` for a pattern wherever it stands. -/
def replaceRule (pattern replacement : Text) : Rule := fun _ text =>
  if pattern.isPrefixOf text then some (replacement, pattern.length) else none

theorem replaceRule_of_isPrefixOf {pattern text : Text} (replacement : Text)
    (before : Option Char) (h : pattern.isPrefixOf text = true) :
    replaceRule pattern replacement before text = some (replacement, pattern.length) := by
  simp [replaceRule, h]

theorem replaceRule_of_not_isPrefixOf {pattern text : Text} (replacement : Text)
    (before : Option Char) (h : pattern.isPrefixOf text = false) :
    replaceRule pattern replacement before text = none := by
  simp [replaceRule, h]

/-- Replaces the occurrences of a non-empty `pattern` that do not overlap, leftmost first. An empty
pattern occurs nowhere. -/
def replaceAll (pattern replacement text : Text) : Text :=
  if pattern.isEmpty then text else edit (replaceRule pattern replacement) text

def removeAll (pattern text : Text) : Text := replaceAll pattern [] text

@[simp] theorem replaceAll_nil (pattern replacement : Text) :
    replaceAll pattern replacement [] = [] := by
  simp [replaceAll, edit]

theorem occursIn_of_isPrefixOf {pattern text : Text} (h : pattern.isPrefixOf text = true) :
    occursIn pattern text = true := by
  cases text with
  | nil =>
    have empty : pattern = [] := List.prefix_nil.mp (List.isPrefixOf_iff_prefix.mp h)
    simp [occursIn, cut?, empty]
  | cons c rest => simp [occursIn, cut?, h]

/-- A text in which the pattern does not occur stays as it is. -/
theorem replaceAll_of_not_occursIn {pattern text : Text} (replacement : Text)
    (h : occursIn pattern text = false) : replaceAll pattern replacement text = text := by
  unfold replaceAll
  split
  · rfl
  · refine editFrom_of_silent (fun _ suffix inside => ?_) none
    simp only [replaceRule, ite_eq_right_iff, reduceCtorEq, imp_false, Bool.not_eq_true]
    induction text with
    | nil =>
      rw [List.suffix_nil.mp inside]
      cases pattern <;> simp_all
    | cons c rest ih =>
      rcases List.suffix_cons_iff.mp inside with rfl | deeper
      · cases shown : pattern.isPrefixOf (c :: rest) with
        | false => rfl
        | true => rw [occursIn_of_isPrefixOf shown] at h; cases h
      · refine ih ?_ deeper
        simp only [occursIn, cut?] at h ⊢
        split at h
        · simp at h
        · simpa using h

/-- Shortening an occurrence shortens the text. -/
theorem editFrom_replaceRule_length {pattern replacement : Text}
    (shorter : replacement.length < pattern.length) (text : Text) :
    ∀ skip before, (editFrom (replaceRule pattern replacement) skip before text).length ≤
      text.length - skip := by
  induction text with
  | nil => intro skip before; simp
  | cons c rest ih =>
    intro skip before
    cases skip with
    | succ skip =>
      have bound := ih skip (some c)
      rw [editFrom_skip, List.length_cons]
      omega
    | zero =>
      cases shown : pattern.isPrefixOf (c :: rest) with
      | false =>
        have bound := ih 0 (some c)
        have copied := replaceRule_of_not_isPrefixOf replacement before shown
        rw [editFrom_copy copied, List.length_cons, List.length_cons]
        omega
      | true =>
        have bound := ih (pattern.length - 1) (some c)
        have fits := (List.isPrefixOf_iff_prefix.mp shown).length_le
        have fired := replaceRule_of_isPrefixOf replacement before shown
        rw [editFrom_fire fired, List.length_append]
        rw [List.length_cons] at fits ⊢
        omega

theorem length_replaceAll_lt {pattern replacement text : Text}
    (shorter : replacement.length < pattern.length) (h : occursIn pattern text = true) :
    (replaceAll pattern replacement text).length < text.length := by
  have solid : pattern.isEmpty = false := by cases pattern <;> simp_all
  suffices strict : ∀ before,
      (editFrom (replaceRule pattern replacement) 0 before text).length < text.length by
    simpa [replaceAll, solid, edit] using strict none
  induction text with
  | nil => simp [occursIn, cut?, List.isEmpty_eq_false_iff.mp solid] at h
  | cons c rest ih =>
    intro before
    cases shown : pattern.isPrefixOf (c :: rest) with
    | true =>
      have bound := editFrom_replaceRule_length shorter rest (pattern.length - 1) (some c)
      have fits := (List.isPrefixOf_iff_prefix.mp shown).length_le
      have fired := replaceRule_of_isPrefixOf replacement before shown
      rw [editFrom_fire fired, List.length_append]
      rw [List.length_cons] at fits ⊢
      omega
    | false =>
      have deeper : occursIn pattern rest = true := by
        simpa [occursIn, cut?, shown] using h
      have copied := replaceRule_of_not_isPrefixOf replacement before shown
      rw [editFrom_copy copied, List.length_cons, List.length_cons]
      exact Nat.succ_lt_succ (ih deeper (some c))

end CompilerFront.Text
