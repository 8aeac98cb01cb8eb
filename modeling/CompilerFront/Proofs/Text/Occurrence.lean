import CompilerFront.Text.Edit
import Mathlib.Data.List.Infix
import Mathlib.Data.List.TakeWhile

set_option autoImplicit false

namespace CompilerFront.Text

theorem mem_joinWith {c : Char} {separator : Text} {parts : List Text}
    (inside : c ∈ joinWith separator parts) : c ∈ separator ∨ ∃ part ∈ parts, c ∈ part := by
  induction parts with
  | nil => cases inside
  | cons part parts ih =>
      cases parts with
      | nil =>
          rw [joinWith_singleton] at inside
          exact .inr ⟨part, List.mem_cons_self, inside⟩
      | cons next parts =>
          rw [joinWith_cons_cons, List.append_assoc] at inside
          rcases List.mem_append.mp inside with here | behind
          · exact .inr ⟨part, List.mem_cons_self, here⟩
          · rcases List.mem_append.mp behind with between | behind
            · exact .inl between
            · rcases ih behind with between | ⟨other, listed, within⟩
              · exact .inl between
              · exact .inr ⟨other, List.mem_cons_of_mem part listed, within⟩

theorem append_eq_append_cons {first second before behind : Text} {c : Char}
    (same : first ++ second = before ++ c :: behind) :
    (∃ between, before = first ++ between ∧ second = between ++ c :: behind) ∨
      ∃ between, first = before ++ c :: between ∧ behind = between ++ second := by
  rcases List.append_eq_append_iff.mp same with ⟨between, head, tail⟩ | ⟨between, head, tail⟩
  · exact .inl ⟨between, head, tail⟩
  · cases between with
    | nil =>
        rw [List.append_nil] at head
        rw [List.nil_append] at tail
        exact .inl ⟨[], by rw [head, List.append_nil], tail.symm⟩
    | cons d between =>
        rw [List.cons_append, List.cons.injEq] at tail
        obtain ⟨rfl, tail⟩ := tail
        exact .inr ⟨between, head, tail⟩

theorem takeWhile_ne_of_not_mem {c : Char} {text : Text} (absent : c ∉ text) :
    text.takeWhile (· ≠ c) = text := by
  refine List.takeWhile_eq_self_iff.mpr fun d inside => ?_
  rw [decide_eq_true_eq]
  rintro rfl
  exact absent inside

theorem takeWhile_ne_append_cons {c : Char} {front : Text} (absent : c ∉ front) (behind : Text) :
    (front ++ c :: behind).takeWhile (· ≠ c) = front := by
  have whole := takeWhile_ne_of_not_mem absent
  have stops : (c :: behind).takeWhile (· ≠ c) = [] := by simp
  rw [List.takeWhile_append, whole, if_pos rfl, stops, List.append_nil]

/-- A pattern at the start of a text ends in front of a character that is not in it. -/
theorem prefix_append_cons_iff {pattern text rest : Text} {c : Char} (absent : c ∉ pattern) :
    pattern <+: text ++ c :: rest ↔ pattern <+: text := by
  constructor
  · rintro ⟨behind, same⟩
    rcases append_eq_append_cons same with ⟨between, shape, -⟩ | ⟨between, shape, -⟩
    · exact ⟨between, shape.symm⟩
    · rw [shape] at absent
      exact absurd (List.mem_append_right text List.mem_cons_self) absent
  · exact fun start => start.trans (List.prefix_append text (c :: rest))

theorem isPrefixOf_append_cons {pattern : Text} {c : Char} (absent : c ∉ pattern)
    (text rest : Text) :
    pattern.isPrefixOf (text ++ c :: rest) = pattern.isPrefixOf text := by
  rw [Bool.eq_iff_iff, List.isPrefixOf_iff_prefix, List.isPrefixOf_iff_prefix,
    prefix_append_cons_iff absent]

theorem occursIn_iff_infix {pattern text : Text} : occursIn pattern text = true ↔ pattern <:+: text := by
  induction text with
  | nil => cases pattern <;> simp [occursIn, cut?]
  | cons c rest ih =>
      rw [List.infix_cons_iff, ← List.isPrefixOf_iff_prefix, ← ih]
      cases shown : pattern.isPrefixOf (c :: rest) <;> simp [occursIn, cut?, shown]

theorem replaceAll_of_not_infix {pattern text : Text} (replacement : Text)
    (absent : ¬ pattern <:+: text) : replaceAll pattern replacement text = text :=
  replaceAll_of_not_occursIn replacement (by
    rw [← Bool.not_eq_true, occursIn_iff_infix]
    exact absent)

theorem isBlind_replaceRule (pattern replacement : Text) :
    IsBlind (replaceRule pattern replacement) := fun _ _ => rfl

theorem replaceAll_self_append {pattern : Text} (solid : pattern ≠ []) (replacement text : Text) :
    replaceAll pattern replacement (pattern ++ text) =
      replacement ++ replaceAll pattern replacement text := by
  have fired : replaceRule pattern replacement none (pattern ++ text) =
      some (replacement, pattern.length) :=
    replaceRule_of_isPrefixOf replacement none
      (List.isPrefixOf_iff_prefix.mpr (List.prefix_append pattern text))
  have edited := edit_of_fire (isBlind_replaceRule pattern replacement)
    (List.append_ne_nil_of_left_ne_nil solid text) (List.length_pos_of_ne_nil solid) fired
  rw [List.drop_left] at edited
  rwa [replaceAll, replaceAll, if_neg (by simpa using solid), if_neg (by simpa using solid)]

theorem replaceAll_self_left {pattern : Text} (solid : pattern ≠ []) (replacement : Text) :
    replaceAll pattern replacement pattern = replacement := by
  have whole := replaceAll_self_append solid replacement []
  rwa [List.append_nil, replaceAll_nil, List.append_nil] at whole

theorem editFrom_replaceRule_self {pattern : Text} (solid : pattern ≠ []) (text : Text)
    (skip : Nat) (before : Option Char) :
    editFrom (replaceRule pattern pattern) skip before text = text.drop skip := by
  induction text generalizing skip before with
  | nil => simp
  | cons c rest ih =>
      cases skip with
      | succ skip => rw [editFrom_skip, ih, List.drop_succ_cons]
      | zero =>
          cases shown : pattern.isPrefixOf (c :: rest) with
          | false =>
              rw [editFrom_copy (replaceRule_of_not_isPrefixOf pattern before shown), ih]
              rfl
          | true =>
              obtain ⟨behind, same⟩ := List.isPrefixOf_iff_prefix.mp shown
              obtain ⟨d, others, rfl⟩ := List.exists_cons_of_ne_nil solid
              rw [editFrom_fire (replaceRule_of_isPrefixOf _ before shown), ih]
              rw [List.cons_append, List.cons.injEq] at same
              obtain ⟨rfl, rfl⟩ := same
              simp

theorem replaceAll_self_right (pattern text : Text) : replaceAll pattern pattern text = text := by
  unfold replaceAll
  split
  · rfl
  · rename_i solid
    rw [edit, editFrom_replaceRule_self (by simpa using solid), List.drop_zero]

/-- No occurrence reaches over a character that is not in the pattern. -/
theorem editFrom_replaceRule_append_cons {pattern : Text} {c : Char} (solid : pattern ≠ [])
    (absent : c ∉ pattern) (replacement text rest : Text) {skip : Nat}
    (inside : skip ≤ text.length) (before : Option Char) :
    editFrom (replaceRule pattern replacement) skip before (text ++ c :: rest) =
      editFrom (replaceRule pattern replacement) skip before text ++
        c :: editFrom (replaceRule pattern replacement) 0 (some c) rest := by
  induction text generalizing skip before with
  | nil =>
      obtain rfl := Nat.le_zero.mp inside
      have apart : pattern.isPrefixOf (c :: rest) = false := by
        obtain ⟨d, others, rfl⟩ := List.exists_cons_of_ne_nil solid
        exact isPrefixOf_append_cons absent [] rest
      rw [List.nil_append, editFrom_copy (replaceRule_of_not_isPrefixOf replacement before apart)]
      rfl
  | cons d text ih =>
      cases skip with
      | succ skip =>
          rw [List.cons_append, editFrom_skip, editFrom_skip]
          exact ih (Nat.le_of_succ_le_succ inside) (some d)
      | zero =>
          have same := isPrefixOf_append_cons absent (d :: text) rest
          rw [List.cons_append] at same
          cases shown : pattern.isPrefixOf (d :: text) with
          | false =>
              rw [shown] at same
              rw [editFrom_copy (replaceRule_of_not_isPrefixOf replacement before shown),
                List.cons_append, editFrom_copy (replaceRule_of_not_isPrefixOf _ before same),
                ih (Nat.zero_le _) (some d), List.cons_append]
          | true =>
              rw [shown] at same
              have fits := (List.isPrefixOf_iff_prefix.mp shown).length_le
              rw [List.length_cons] at fits
              rw [editFrom_fire (replaceRule_of_isPrefixOf replacement before shown),
                List.cons_append, editFrom_fire (replaceRule_of_isPrefixOf _ before same),
                ih (by omega) (some d), List.append_assoc]

theorem replaceAll_append_cons {pattern : Text} {c : Char} (absent : c ∉ pattern)
    (replacement text rest : Text) :
    replaceAll pattern replacement (text ++ c :: rest) =
      replaceAll pattern replacement text ++ c :: replaceAll pattern replacement rest := by
  unfold replaceAll
  split
  · rfl
  · rename_i solid
    rw [edit, edit, editFrom_replaceRule_append_cons (by simpa using solid) absent
      replacement text rest (Nat.zero_le _) none,
      editFrom_of_isBlind (isBlind_replaceRule pattern replacement) 0 (some c), List.drop_zero]

/-- No occurrence of the pattern begins in the front, whatever of it stands in the text behind. -/
def Apart (pattern front text : Text) : Prop :=
  ∀ tail, tail <:+ front → tail ≠ [] → ¬ pattern <+: tail ++ text

section

variable {pattern front text : Text}

theorem apart_nil (pattern text : Text) : Apart pattern [] text :=
  fun _ inside solid => absurd (List.suffix_nil.mp inside) solid

theorem apart_cons {c : Char} :
    Apart pattern (c :: front) text ↔
      ¬ pattern <+: c :: (front ++ text) ∧ Apart pattern front text := by
  constructor
  · intro apart
    refine ⟨apart _ (List.suffix_refl _) (List.cons_ne_nil c front), fun tail inside => ?_⟩
    exact apart tail (inside.trans (List.suffix_cons c front))
  · rintro ⟨here, later⟩ tail inside solid
    rcases List.suffix_cons_iff.mp inside with rfl | deeper
    · exact here
    · exact later tail deeper solid

/-- Where a part of the pattern does not begin, the pattern does not either. -/
theorem Apart.of_start {name : Text} (apart : Apart name front text) (start : name <+: pattern) :
    Apart pattern front text :=
  fun tail inside solid occurs => apart tail inside solid (start.trans occurs)

theorem Apart.append {middle : Text} (first : Apart pattern front (middle ++ text))
    (second : Apart pattern middle text) : Apart pattern (front ++ middle) text := by
  induction front with
  | nil => exact second
  | cons c front ih =>
      obtain ⟨here, later⟩ := apart_cons.mp first
      rw [List.cons_append, apart_cons, List.append_assoc]
      exact ⟨here, ih later⟩

/-- A front in which no beginning of the pattern stands, not even a cut off one. -/
theorem apart_of_unrelated
    (unrelated : ∀ tail ∈ front.tails, tail ≠ [] → ¬ (pattern <+: tail ∨ tail <+: pattern))
    (text : Text) : Apart pattern front text := by
  intro tail inside solid start
  have related := List.prefix_or_prefix_of_prefix start (List.prefix_append tail text)
  exact unrelated tail ((List.mem_tails tail front).mpr inside) solid related

theorem apart_of_head? (solid : pattern ≠ [])
    (other : ∀ c ∈ front, pattern.head? ≠ some c) (text : Text) : Apart pattern front text := by
  intro tail inside started start
  obtain ⟨c, rest, rfl⟩ := List.exists_cons_of_ne_nil started
  obtain ⟨d, more, rfl⟩ := List.exists_cons_of_ne_nil solid
  obtain ⟨rfl, -⟩ := List.cons_prefix_cons.mp start
  exact other d (inside.mem List.mem_cons_self) rfl

/-- An occurrence that begins in the front stands in it, or it goes on with what follows: the front
ends with a left part of the pattern, and the text behind begins with the right one. -/
theorem apart_of_unmet (absent : ¬ pattern <:+: front)
    (unmet : ∀ left right, pattern = left ++ right → left ≠ [] → right ≠ [] → left <:+ front →
      ¬ right <+: text) : Apart pattern front text := by
  intro tail inside solid start
  rcases List.prefix_or_prefix_of_prefix start (List.prefix_append tail text) with
    within | ⟨right, rfl⟩
  · exact absent (within.isInfix.trans inside.isInfix)
  · have started : right ≠ [] := by
      rintro rfl
      rw [List.append_nil] at absent
      exact absent inside.isInfix
    exact unmet tail right rfl solid started inside ((List.prefix_append_right_inj tail).mp start)

/-- No end of the pattern may begin the text behind. -/
theorem apart_of_absent (absent : ¬ pattern <:+: front)
    (unmet : ∀ right ∈ pattern.tails, right ≠ [] → right ≠ pattern → ¬ right <+: text) :
    Apart pattern front text := by
  refine apart_of_unmet absent fun left right halves solid started _ => ?_
  refine unmet right ?_ started fun same => solid ?_
  · exact (List.mem_tails right _).mpr (halves ▸ List.suffix_append left right)
  · rw [← same] at halves
    exact List.self_eq_append_left.mp halves

/-- An occurrence that begins in the front does not reach over a character with which the pattern
does not go on. -/
theorem apart_of_ended (absent : ¬ pattern <:+: front)
    (ended : ∀ c ∈ text.head?, c ∉ pattern.tail) : Apart pattern front text := by
  refine apart_of_unmet absent fun left right halves solid started _ start => ?_
  obtain ⟨d, left, rfl⟩ := List.exists_cons_of_ne_nil solid
  obtain ⟨c, rest, rfl⟩ := List.exists_cons_of_ne_nil started
  obtain ⟨behind, rfl⟩ := start
  rw [halves] at ended
  exact ended c rfl (List.mem_append_right left List.mem_cons_self)

theorem infix_append_of_apart (apart : Apart pattern front text) :
    pattern <:+: front ++ text ↔ pattern <:+: text := by
  induction front with
  | nil => rfl
  | cons c front ih =>
      obtain ⟨here, later⟩ := apart_cons.mp apart
      rw [List.cons_append, List.infix_cons_iff, or_iff_right here, ih later]

theorem replaceAll_append_of_apart (apart : Apart pattern front text) (replacement : Text) :
    replaceAll pattern replacement (front ++ text) =
      front ++ replaceAll pattern replacement text := by
  unfold replaceAll
  split
  · rfl
  · refine edit_append_of_silent (isBlind_replaceRule pattern replacement) ?_
    intro tail inside solid
    apply replaceRule_of_not_isPrefixOf
    rw [← Bool.not_eq_true, List.isPrefixOf_iff_prefix]
    exact apart tail inside solid

theorem cut?_append_of_apart (apart : Apart pattern front text) :
    cut? pattern (front ++ text) =
      (cut? pattern text).map fun parts => (front ++ parts.1, parts.2) := by
  induction front with
  | nil => simp
  | cons c front ih =>
      obtain ⟨here, later⟩ := apart_cons.mp apart
      rw [← List.isPrefixOf_iff_prefix, Bool.not_eq_true] at here
      rw [List.cons_append, cut?, here, ih later, if_neg Bool.false_ne_true, Option.map_map]
      rfl

theorem cut?_self_append (solid : pattern ≠ []) (text : Text) :
    cut? pattern (pattern ++ text) = some ([], text) := by
  obtain ⟨c, rest, rfl⟩ := List.exists_cons_of_ne_nil solid
  have start : (c :: rest).isPrefixOf (c :: (rest ++ text)) = true :=
    List.isPrefixOf_iff_prefix.mpr (List.prefix_append (c :: rest) text)
  rw [List.cons_append, cut?, if_pos start, ← List.cons_append, List.drop_left]

theorem apart_of_cut? {behind : Text} (found : cut? pattern text = some (front, behind)) :
    Apart pattern front (pattern ++ behind) := by
  induction text generalizing front with
  | nil =>
      simp only [cut?, List.isEmpty_iff] at found
      split at found
      · cases found
        exact apart_nil pattern _
      · cases found
  | cons c rest ih =>
      simp only [cut?] at found
      split at found
      · cases found
        exact apart_nil pattern _
      · rename_i notHere
        obtain ⟨⟨front, behind⟩, deeper, same⟩ := Option.map_eq_some_iff.mp found
        cases same
        rw [List.isPrefixOf_iff_prefix, append_of_cut? deeper, List.append_assoc] at notHere
        exact apart_cons.mpr ⟨notHere, ih deeper⟩

theorem replaceAll_of_cut? {behind : Text} (solid : pattern ≠ [])
    (replacement : Text) (found : cut? pattern text = some (front, behind)) :
    replaceAll pattern replacement text =
      front ++ (replacement ++ replaceAll pattern replacement behind) := by
  rw [append_of_cut? found, List.append_assoc, replaceAll_append_of_apart (apart_of_cut? found),
    replaceAll_self_append solid]

end

end CompilerFront.Text
