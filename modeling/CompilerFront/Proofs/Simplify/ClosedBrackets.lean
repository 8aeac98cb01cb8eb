import CompilerFront.Simplify.Fragment
import CompilerFront.Proofs.Text.Occurrence
import Mathlib.Data.Nat.Find
import Mathlib.Logic.Function.Iterate

set_option autoImplicit false

/-!
Closing up brackets in one pass. However many passes it takes, what is gone in the end are the
spaces that stood alone between two closing brackets. It never takes more than two, because no two
neighbouring pairs of brackets are left spaced by a pass.
-/
namespace CompilerFront.Simplify

def gapRule : Text.Rule := fun before text =>
  if before = some '>' ∧ text.head? = some ' ' ∧ text.tail.head? = some '>' then some ([], 1)
  else none

/-- The text from a position on, with the character in front of it, without such spaces. -/
def closedFrom (before : Option Char) (text : Text) : Text := Text.editFrom gapRule 0 before text

def closePass (code : Text) : Text := Text.replaceAll spacedBrackets closedBrackets code

section

variable {before : Option Char} {text rest : Text}

@[simp] theorem closedFrom_nil (before : Option Char) : closedFrom before [] = [] := rfl

/-- A space is left out where it stands between two brackets. -/
theorem closedFrom_gap (bracket : rest.head? = some '>') :
    closedFrom (some '>') (' ' :: rest) = closedFrom (some ' ') rest := by
  have fired : gapRule (some '>') (' ' :: rest) = some ([], 1) := by simp [gapRule, bracket]
  rw [closedFrom, Text.editFrom_fire fired, Nat.sub_self, List.nil_append, closedFrom]

theorem closedFrom_cons {c : Char}
    (kept : ¬ (before = some '>' ∧ c = ' ' ∧ rest.head? = some '>')) :
    closedFrom before (c :: rest) = c :: closedFrom (some c) rest := by
  refine Text.editFrom_copy (if_neg fun fires => kept ⟨fires.1, ?_, fires.2.2⟩)
  exact Option.some.inj fires.2.1

theorem closedFrom_cons_of_ne {c : Char} (solid : c ≠ ' ') (before : Option Char) (rest : Text) :
    closedFrom before (c :: rest) = c :: closedFrom (some c) rest :=
  closedFrom_cons fun fires => solid fires.2.1

/-- Only a bracket in front makes a difference. -/
theorem closedFrom_of_ne (other : before ≠ some '>') (text : Text) :
    closedFrom before text = closedFrom none text := by
  cases text with
  | nil => rfl
  | cons c rest =>
      rw [closedFrom_cons fun fires => other fires.1,
        closedFrom_cons fun fires => absurd fires.1 (by decide)]

/-- What is removed hangs on the neighbours only, so a text may be cut behind a bracket. -/
theorem closedFrom_append_bracket (before : Option Char) (text rest : Text) :
    closedFrom before (text ++ '>' :: rest) =
      closedFrom before (text ++ ['>']) ++ closedFrom (some '>') rest := by
  induction text generalizing before with
  | nil =>
      rw [List.nil_append, List.nil_append, closedFrom_cons_of_ne (by decide),
        closedFrom_cons_of_ne (by decide), closedFrom_nil, List.singleton_append]
  | cons c text ih =>
      have head : (text ++ '>' :: rest).head? = (text ++ ['>']).head? := by cases text <;> rfl
      rw [List.cons_append, List.cons_append]
      by_cases fires : before = some '>' ∧ c = ' ' ∧ (text ++ ['>']).head? = some '>'
      · obtain ⟨rfl, rfl, bracket⟩ := fires
        rw [closedFrom_gap (head.trans bracket), closedFrom_gap bracket, ih]
      · have kept := fires
        rw [← head] at kept
        rw [closedFrom_cons kept, closedFrom_cons fires, ih, List.cons_append]

theorem closedFrom_append_cons {c : Char} (space : c ≠ ' ') (bracket : c ≠ '>')
    (before : Option Char) (text rest : Text) :
    closedFrom before (text ++ c :: rest) =
      closedFrom before text ++ c :: closedFrom none rest := by
  have other : some c ≠ some '>' := fun same => bracket (Option.some.inj same)
  induction text generalizing before with
  | nil => rw [List.nil_append, closedFrom_cons_of_ne space, closedFrom_of_ne other]; rfl
  | cons d text ih =>
      have head : (text ++ c :: rest).head? = some '>' ↔ text.head? = some '>' := by
        cases text with
        | nil => simp [bracket]
        | cons e text => simp
      rw [List.cons_append]
      by_cases fires : before = some '>' ∧ d = ' ' ∧ text.head? = some '>'
      · obtain ⟨rfl, rfl, gap⟩ := fires
        rw [closedFrom_gap (head.mpr gap), closedFrom_gap gap, ih]
      · have kept := fires
        rw [← head] at kept
        rw [closedFrom_cons kept, closedFrom_cons fires, ih, List.cons_append]

theorem closedFrom_of_absent (absent : ¬ spacedBrackets <:+: before.toList ++ text) :
    closedFrom before text = text := by
  induction text generalizing before with
  | nil => rfl
  | cons c rest ih =>
      have kept : ¬ (before = some '>' ∧ c = ' ' ∧ rest.head? = some '>') := by
        rintro ⟨rfl, rfl, gap⟩
        obtain ⟨tail, rfl⟩ := List.head?_eq_some_iff.mp gap
        exact absent ⟨[], tail, rfl⟩
      have deeper : ¬ spacedBrackets <:+: (some c).toList ++ rest := fun inside =>
        absent (inside.trans (List.suffix_append before.toList (c :: rest)).isInfix)
      rw [closedFrom_cons kept, ih deeper]

theorem closedFrom_of_not_mem {c : Char} (isPart : c ∈ spacedBrackets.tail) (absent : c ∉ text)
    (before : Option Char) : closedFrom before text = text := by
  refine closedFrom_of_absent fun inside => absent ?_
  cases before with
  | none => exact inside.mem (List.mem_of_mem_tail isPart)
  | some front =>
      rcases List.infix_cons_iff.mp inside with start | deeper
      · exact (List.cons_prefix_cons.mp start).2.isInfix.mem isPart
      · exact deeper.mem (List.mem_of_mem_tail isPart)

theorem closePass_spaced (rest : Text) :
    closePass ('>' :: ' ' :: '>' :: rest) = '>' :: '>' :: closePass rest :=
  Text.replaceAll_self_append (by decide) closedBrackets rest

theorem closePass_cons {c : Char} (apart : ¬ spacedBrackets <+: c :: rest) :
    closePass (c :: rest) = c :: closePass rest :=
  Text.replaceAll_append_of_apart
    (Text.apart_cons.mpr ⟨apart, Text.apart_nil spacedBrackets rest⟩) closedBrackets

/-- The two things a pass does, as the steps of an induction. -/
theorem closePass_induction {motive : Text → Prop} (nil : motive [])
    (spaced : ∀ rest, motive rest → motive ('>' :: ' ' :: '>' :: rest))
    (copied : ∀ c rest, ¬ spacedBrackets <+: c :: rest → motive rest → motive (c :: rest))
    (text : Text) : motive text := by
  induction size : text.length using Nat.strongRecOn generalizing text with
  | ind length ih =>
    subst size
    cases text with
    | nil => exact nil
    | cons c rest =>
        by_cases start : spacedBrackets <+: c :: rest
        · obtain ⟨behind, same⟩ := start
          have shorter : behind.length < (c :: rest).length := by
            rw [← same, List.length_append]
            exact Nat.lt_add_of_pos_left (by decide)
          rw [← same]
          exact spaced behind (ih _ shorter behind rfl)
        · exact copied c rest start (ih _ (Nat.lt_succ_self _) rest rfl)

theorem spacedBrackets_isPrefix_iff {c : Char} :
    spacedBrackets <+: c :: text ↔
      c = '>' ∧ text.head? = some ' ' ∧ text.tail.head? = some '>' := by
  match text with
  | [] => simp [spacedBrackets]
  | [d] => simp [spacedBrackets, eq_comm]
  | d :: e :: rest => simp [spacedBrackets, eq_comm, List.cons_prefix_cons]

theorem head?_closePass (text : Text) : (closePass text).head? = text.head? := by
  cases text using closePass_induction with
  | nil => rfl
  | spaced rest => rw [closePass_spaced]; rfl
  | copied c rest apart => rw [closePass_cons apart]; rfl

/-- A pass removes none but the spaces between two closing brackets. -/
theorem closedFrom_closePass (before : Option Char) (text : Text) :
    closedFrom before (closePass text) = closedFrom before text := by
  induction text using closePass_induction generalizing before with
  | nil => rfl
  | spaced rest ih =>
      rw [closePass_spaced, closedFrom_cons_of_ne (by decide), closedFrom_cons_of_ne (by decide),
        closedFrom_cons_of_ne (by decide), closedFrom_gap rfl, closedFrom_cons_of_ne (by decide),
        ih]
  | copied c rest apart ih =>
      have head := head?_closePass rest
      rw [closePass_cons apart]
      by_cases fires : before = some '>' ∧ c = ' ' ∧ rest.head? = some '>'
      · obtain ⟨rfl, rfl, bracket⟩ := fires
        rw [closedFrom_gap (head.trans bracket), closedFrom_gap bracket, ih]
      · have kept := fires
        rw [← head] at kept
        rw [closedFrom_cons kept, closedFrom_cons fires, ih]

/-- The passes together remove the spaces between two closing brackets. -/
theorem closeUp_eq_closedFrom (code : Text) : closeUp code = closedFrom none code := by
  fun_induction closeUp code with
  | case1 code spaced ih => exact ih.trans (closedFrom_closePass none code)
  | case2 code plain =>
      rw [Text.occursIn_iff_infix] at plain
      have unchanged : closedFrom none code = code := closedFrom_of_absent plain
      exact unchanged.symm

/-- No text begins with spaced brackets behind a pass. Those that are left begin at the second of
two brackets that the pass closed up. -/
theorem spacedBrackets_not_isPrefix_closePass (text : Text) :
    ¬ spacedBrackets <+: closePass text := by
  cases text using closePass_induction with
  | nil => decide
  | spaced rest =>
      rw [closePass_spaced, spacedBrackets_isPrefix_iff]
      rintro ⟨-, space, -⟩
      exact absurd (Option.some.inj space) (by decide)
  | copied c rest apart =>
      rw [closePass_cons apart]
      intro start
      apply apart
      rw [spacedBrackets_isPrefix_iff] at start ⊢
      obtain ⟨first, space, second⟩ := start
      rw [head?_closePass] at space
      obtain ⟨tail, rfl⟩ := List.head?_eq_some_iff.mp space
      have passed : closePass (' ' :: tail) = ' ' :: closePass tail :=
        closePass_cons fun other => absurd (List.cons_prefix_cons.mp other).1 (by decide)
      rw [passed, List.tail_cons, head?_closePass] at second
      exact ⟨first, space, second⟩

/-- A character in front is copied unless it is a bracket and a space and another one follow. -/
theorem closePass_toList_append
    (kept : ¬ (before = some '>' ∧ text.head? = some ' ' ∧ text.tail.head? = some '>')) :
    closePass (before.toList ++ text) = before.toList ++ closePass text := by
  cases before with
  | none => rfl
  | some front =>
      refine closePass_cons fun start => kept ?_
      obtain ⟨bracket, follow⟩ := spacedBrackets_isPrefix_iff.mp start
      exact ⟨congrArg some bracket, follow⟩

/-- A second pass removes what the first has left of these spaces, whatever character was put in
front of the text in between. -/
theorem closePass_toList_append_closePass (before : Option Char) (text : Text) :
    closePass (before.toList ++ closePass text) = before.toList ++ closedFrom before text := by
  induction text using closePass_induction generalizing before with
  | nil => exact closePass_toList_append fun fires => absurd fires.2.1 (by decide)
  | spaced rest ih =>
      have solid (front : Option Char) (text : Text) :
          closePass (front.toList ++ '>' :: text) = front.toList ++ closePass ('>' :: text) :=
        closePass_toList_append fun fires => absurd (Option.some.inj fires.2.1) (by decide)
      have second : closePass ('>' :: '>' :: closePass rest) =
          '>' :: closePass ('>' :: closePass rest) := solid (some '>') _
      have third : closePass ('>' :: closePass rest) = '>' :: closedFrom (some '>') rest :=
        ih (some '>')
      rw [closePass_spaced, solid before, second, third, closedFrom_cons_of_ne (by decide),
        closedFrom_gap rfl, closedFrom_cons_of_ne (by decide)]
  | copied c rest apart ih =>
      have head := head?_closePass rest
      rw [closePass_cons apart]
      by_cases fires : before = some '>' ∧ c = ' ' ∧ rest.head? = some '>'
      · -- The character in front is a bracket and is closed up with the one behind the space, so
        -- this one is not looked at again. No pair began at it that would be missed.
        obtain ⟨rfl, rfl, bracket⟩ := fires
        obtain ⟨left, passed⟩ := List.head?_eq_some_iff.mp (head.trans bracket)
        have untouched := spacedBrackets_not_isPrefix_closePass rest
        have second : closePass (closePass rest) = closedFrom none rest := ih none
        have space : closedFrom (some ' ') rest = closedFrom none rest :=
          closedFrom_of_ne (by decide) rest
        rw [passed] at untouched second
        rw [passed, Option.toList_some, List.singleton_append, List.singleton_append,
          closePass_spaced, ← closePass_cons untouched, second, closedFrom_gap bracket, space]
      · have kept : ¬ (before = some '>' ∧ (c :: closePass rest).head? = some ' ' ∧
            (c :: closePass rest).tail.head? = some '>') := fun gap =>
          fires ⟨gap.1, Option.some.inj gap.2.1, head.symm.trans gap.2.2⟩
        have second : closePass (c :: closePass rest) = c :: closedFrom (some c) rest :=
          ih (some c)
        rw [closePass_toList_append kept, second, closedFrom_cons fires]

/-- It does not matter how many passes were made already. -/
theorem closeUp_iterate_closePass (passes : Nat) (code : Text) :
    closeUp (closePass^[passes] code) = closeUp code := by
  induction passes with
  | zero => rfl
  | succ passes ih =>
      rw [Function.iterate_succ_apply', closeUp_eq_closedFrom, closedFrom_closePass,
        ← closeUp_eq_closedFrom, ih]

/-- Two passes are always enough. -/
theorem closeUp_eq_closePass_closePass (code : Text) :
    closeUp code = closePass (closePass code) :=
  (closeUp_eq_closedFrom code).trans (closePass_toList_append_closePass none code).symm

theorem not_isInfix_closeUp (code : Text) : ¬ spacedBrackets <:+: closeUp code := by
  rw [← Text.occursIn_iff_infix, occursIn_closeUp]
  exact Bool.false_ne_true

/-- Passes are made as long as spaced brackets are left, which is the case at most twice. -/
theorem exists_closePasses (code : Text) :
    ∃ passes ≤ 2, (∀ earlier < passes, spacedBrackets <:+: closePass^[earlier] code) ∧
      closeUp code = closePass^[passes] code := by
  have second : ¬ spacedBrackets <:+: closePass^[2] code := by
    have left := not_isInfix_closeUp code
    rwa [closeUp_eq_closePass_closePass] at left
  have ends : ∃ passes, ¬ spacedBrackets <:+: closePass^[passes] code := ⟨2, second⟩
  refine ⟨Nat.find ends, Nat.find_min' ends second, fun earlier inside => ?_, ?_⟩
  · exact not_not.mp (Nat.find_min ends inside)
  · have last := Nat.find_spec ends
    rw [← Text.occursIn_iff_infix, Bool.not_eq_true] at last
    rw [← closeUp_iterate_closePass (Nat.find ends), closeUp_of_not_occursIn last]

/-- A position of a space with a closing bracket right in front of it and right behind it. -/
def IsGap (code : Text) (i : Nat) : Prop :=
  0 < i ∧ code[i - 1]? = some '>' ∧ code[i]? = some ' ' ∧ code[i + 1]? = some '>'

instance (code : Text) : DecidablePred (IsGap code) := fun i =>
  inferInstanceAs (Decidable (0 < i ∧ _ ∧ _ ∧ _))

/-- The characters of a text at all other positions. -/
def withoutGaps (code : Text) : Text :=
  (code.zipIdx.filter fun place => ¬ IsGap code place.2).map Prod.fst

theorem isGap_length_iff {front : Text} {c : Char} :
    IsGap (front ++ c :: rest) front.length ↔
      front.getLast? = some '>' ∧ c = ' ' ∧ rest.head? = some '>' := by
  have here : (front ++ c :: rest)[front.length]? = some c := by simp
  have behind : (front ++ c :: rest)[front.length + 1]? = rest.head? := by
    rw [List.getElem?_append_right (Nat.le_add_right _ 1), Nat.add_sub_cancel_left,
      List.getElem?_cons_succ, List.head?_eq_getElem?]
  have ahead : 0 < front.length ∧ (front ++ c :: rest)[front.length - 1]? = some '>' ↔
      front.getLast? = some '>' := by
    cases front using List.reverseRecOn with
    | nil => simp
    | append_singleton front last => simp
  rw [IsGap, here, behind, ← and_assoc, ahead, Option.some.injEq]

/-- What is removed from a position on are the gaps there. -/
theorem closedFrom_getLast? (front rest : Text) :
    closedFrom front.getLast? rest =
      ((rest.zipIdx front.length).filter fun place => ¬ IsGap (front ++ rest) place.2).map
        Prod.fst := by
  induction rest generalizing front with
  | nil => rfl
  | cons c rest ih =>
      have later := ih (front ++ [c])
      rw [List.getLast?_concat, List.append_assoc, List.singleton_append, List.length_append,
        List.length_singleton] at later
      rw [List.zipIdx_cons, List.filter_cons]
      by_cases gap : IsGap (front ++ c :: rest) front.length
      · obtain ⟨bracket, rfl, next⟩ := isGap_length_iff.mp gap
        rw [if_neg (by simpa using gap), ← later, bracket, closedFrom_gap next]
      · rw [if_pos (by simpa using gap), List.map_cons, ← later,
          closedFrom_cons fun fires => gap (isGap_length_iff.mpr fires)]

/-- The passes come to an end, after two at the latest, and what they have taken away by then are
exactly the spaces that stood alone between two closing brackets. -/
theorem closeUp_eq_withoutGaps (code : Text) :
    (∃ passes ≤ 2, (∀ earlier < passes, spacedBrackets <:+: closePass^[earlier] code) ∧
        ¬ spacedBrackets <:+: closePass^[passes] code ∧ closeUp code = closePass^[passes] code) ∧
      closeUp code = withoutGaps code ∧ ¬ spacedBrackets <:+: closeUp code := by
  obtain ⟨passes, few, going, finished⟩ := exists_closePasses code
  have clean := not_isInfix_closeUp code
  refine ⟨⟨passes, few, going, finished ▸ clean, finished⟩, ?_, clean⟩
  exact (closeUp_eq_closedFrom code).trans (closedFrom_getLast? [] code)

/-- One pass may be too few: the second bracket of a pair begins no pair of its own in it. -/
example : closePass "a<b<c<d> > >" = "a<b<c<d>> >" := by decide +kernel

end

end CompilerFront.Simplify
