import CompilerFront.Formatter
import CompilerFront.Proofs.Text.Occurrence
import CompilerFront.Terminal

set_option autoImplicit false

namespace CompilerFront

namespace Terminal

open Colour (escape select reset)

/-- The length of the sequence with which a text begins, if it begins with one. -/
def renditionLength? (text : Text) : Option Nat :=
  let sequence := select ((text.drop 2).takeWhile Text.isDigit)
  if Text.isNumeral ((text.drop 2).takeWhile Text.isDigit) && sequence.isPrefixOf text then
    some sequence.length
  else none

def renditionRule : Text.Rule := fun _ text => (renditionLength? text).map fun length => ([], length)

/-- A text without the sequences that select a rendition by a numeral. -/
def withoutRenditions (text : Text) : Text := Text.edit renditionRule text

def isContinuation (c : Char) : Bool := c == '[' || c == 'm' || Text.isDigit c

/-- No sequence reaches over the start of the text. -/
def IsFresh (text : Text) : Prop := ∀ c ∈ text.head?, isContinuation c = false

section

variable {digits text front behind : Text}

theorem select_ne_nil (digits : Text) : select digits ≠ [] := List.cons_ne_nil _ _

theorem length_select_pos (digits : Text) : 0 < (select digits).length :=
  List.length_pos_of_ne_nil (select_ne_nil digits)

theorem isFresh_select (digits behind : Text) : IsFresh (select digits ++ behind) := by
  intro c first
  cases first
  decide

theorem isContinuation_of_mem_tail (numeral : Text.isNumeral digits = true) {c : Char}
    (inside : c ∈ (select digits).tail) : isContinuation c = true := by
  have parts : c = '[' ∨ c ∈ digits ∨ c = 'm' := by simpa [select] using inside
  rcases parts with rfl | digit | rfl
  · rfl
  · simp [isContinuation, Text.isDigit_of_mem numeral digit]
  · rfl

theorem renditionLength?_select_append (numeral : Text.isNumeral digits = true) (behind : Text) :
    renditionLength? (select digits ++ behind) = some (select digits).length := by
  have scanned : ((select digits ++ behind).drop 2).takeWhile Text.isDigit = digits := by
    have body : (select digits ++ behind).drop 2 = digits ++ 'm' :: behind := by simp [select]
    have ended : ('m' :: behind).takeWhile Text.isDigit = [] := rfl
    rw [body, List.takeWhile_append_of_pos fun c => Text.isDigit_of_mem numeral, ended,
      List.append_nil]
  have start : (select digits).isPrefixOf (select digits ++ behind) = true :=
    List.isPrefixOf_iff_prefix.mpr (List.prefix_append _ _)
  simp only [renditionLength?, scanned, numeral, start, Bool.and_self, if_true]

theorem renditionLength?_eq_some_iff {length : Nat} :
    renditionLength? text = some length ↔ ∃ digits behind, Text.isNumeral digits = true ∧
      text = select digits ++ behind ∧ length = (select digits).length := by
  constructor
  · intro found
    simp only [renditionLength?] at found
    split at found
    · rename_i shown
      obtain ⟨numeral, start⟩ := Bool.and_eq_true_iff.mp shown
      obtain ⟨behind, whole⟩ := List.isPrefixOf_iff_prefix.mp start
      exact ⟨_, behind, numeral, whole.symm, (Option.some.inj found).symm⟩
    · cases found
  · rintro ⟨digits, behind, numeral, rfl, rfl⟩
    exact renditionLength?_select_append numeral behind

theorem renditionLength?_append (solid : front ≠ []) (fresh : IsFresh behind) :
    renditionLength? (front ++ behind) = renditionLength? front := by
  refine Option.ext fun length => ?_
  rw [renditionLength?_eq_some_iff, renditionLength?_eq_some_iff]
  constructor
  · rintro ⟨digits, rest, numeral, whole, rfl⟩
    refine ⟨digits, ?_⟩
    rcases List.append_eq_append_iff.mp whole with ⟨left, cut, goesOn⟩ | ⟨between, inFront, -⟩
    · cases left with
      | nil => exact ⟨[], numeral, by rw [cut, List.append_nil, List.append_nil], rfl⟩
      | cons c left =>
          -- the sequence would reach over the end of the front
          obtain ⟨d, front, rfl⟩ := List.exists_cons_of_ne_nil solid
          have inTail : c ∈ (select digits).tail := by
            rw [cut]
            exact List.mem_append_right front List.mem_cons_self
          have stays := fresh c (by rw [goesOn]; rfl)
          rw [isContinuation_of_mem_tail numeral inTail] at stays
          cases stays
    · exact ⟨between, numeral, inFront, rfl⟩
  · rintro ⟨digits, between, numeral, rfl, rfl⟩
    exact ⟨digits, between ++ behind, numeral, List.append_assoc _ _ _, rfl⟩

theorem isBlind_renditionRule : Text.IsBlind renditionRule := fun _ _ => rfl

@[simp] theorem withoutRenditions_nil : withoutRenditions [] = [] := rfl

theorem withoutRenditions_cons {c : Char} {rest : Text} (none : renditionLength? (c :: rest) = none) :
    withoutRenditions (c :: rest) = c :: withoutRenditions rest := by
  have silent : renditionRule .none (c :: rest) = .none := by rw [renditionRule, none]; rfl
  rw [withoutRenditions, Text.edit, Text.editFrom_copy silent,
    Text.editFrom_of_isBlind isBlind_renditionRule]
  rfl

theorem withoutRenditions_select_append (numeral : Text.isNumeral digits = true) (behind : Text) :
    withoutRenditions (select digits ++ behind) = withoutRenditions behind := by
  have fired : renditionRule none (select digits ++ behind) = some ([], (select digits).length) := by
    rw [renditionRule, renditionLength?_select_append numeral]
    rfl
  have deleted := Text.edit_of_fire isBlind_renditionRule
    (List.append_ne_nil_of_left_ne_nil (select_ne_nil digits) behind) (length_select_pos digits)
    fired
  rwa [List.drop_left] at deleted

theorem withoutRenditions_append (front : Text) (fresh : IsFresh behind) :
    withoutRenditions (front ++ behind) = withoutRenditions front ++ withoutRenditions behind := by
  -- a sequence at the front is deleted as a whole, so the induction is on the length
  induction size : front.length using Nat.strongRecOn generalizing front with
  | ind length ih =>
    cases front with
    | nil => rfl
    | cons c front =>
        have same := renditionLength?_append (List.cons_ne_nil c front) fresh
        cases found : renditionLength? (c :: front) with
        | none =>
            rw [found, List.cons_append] at same
            have shorter : front.length < length := by rw [← size]; exact Nat.lt_succ_self _
            rw [List.cons_append, withoutRenditions_cons same, withoutRenditions_cons found,
              ih _ shorter front rfl, List.cons_append]
        | some used =>
            obtain ⟨digits, rest, numeral, shape, -⟩ := renditionLength?_eq_some_iff.mp found
            have shorter : rest.length < length := by
              rw [← size, shape, List.length_append]
              exact Nat.lt_add_of_pos_left (length_select_pos digits)
            rw [shape, List.append_assoc, withoutRenditions_select_append numeral,
              withoutRenditions_select_append numeral, ih _ shorter rest rfl]

theorem withoutRenditions_newline (rest : Text) :
    withoutRenditions ('\n' :: rest) = '\n' :: withoutRenditions rest := by
  refine withoutRenditions_cons (Option.eq_none_iff_forall_ne_some.mpr fun length found => ?_)
  obtain ⟨digits, behind, -, whole, -⟩ := renditionLength?_eq_some_iff.mp found
  cases (List.cons.inj whole).1

/-- A sequence is deleted wherever it stands. What is in front of it is not joined to what is
behind. -/
theorem withoutRenditions_append_select_append (front : Text)
    (numeral : Text.isNumeral digits = true) (behind : Text) :
    withoutRenditions (front ++ (select digits ++ behind)) =
      withoutRenditions front ++ withoutRenditions behind := by
  rw [withoutRenditions_append front (isFresh_select digits behind),
    withoutRenditions_select_append numeral]

/-- Deleting the sequence in the middle makes a sequence of what is around it, which stays. -/
example : withoutRenditions "\x1b[31ma\x1b[3\x1b[0m1mb" = "a\x1b[31mb" := by decide +kernel

theorem withoutRenditions_joinWith_newline (parts : List Text) :
    withoutRenditions (Text.joinWith "\n" parts) =
      Text.joinWith "\n" (parts.map withoutRenditions) := by
  induction parts with
  | nil => rfl
  | cons part parts ih =>
      cases parts with
      | nil => rw [List.map_singleton, Text.joinWith_singleton, Text.joinWith_singleton]
      | cons next parts =>
          have fresh : IsFresh ('\n' :: Text.joinWith "\n" (next :: parts)) := by
            intro c first
            cases first
            decide
          rw [Text.joinWith_cons_cons, List.append_assoc, List.map_cons, List.map_cons,
            Text.joinWith_cons_cons, List.append_assoc, ← List.map_cons, ← ih]
          exact (withoutRenditions_append part fresh).trans
            (congrArg (withoutRenditions part ++ ·) (withoutRenditions_newline _))

end

end Terminal

namespace Colour

open Terminal

theorem exists_numeral_code (colour : Colour) :
    ∃ digits, Text.isNumeral digits = true ∧ colour.code = select digits := by
  cases colour
  · exact ⟨"31", rfl, rfl⟩
  · exact ⟨"32", rfl, rfl⟩
  · exact ⟨"33", rfl, rfl⟩
  · exact ⟨"34", rfl, rfl⟩

theorem withoutRenditions_code_append (colour : Colour) (text : Text) :
    withoutRenditions (colour.code ++ text) = withoutRenditions text := by
  obtain ⟨digits, numeral, shape⟩ := colour.exists_numeral_code
  rw [shape, withoutRenditions_select_append numeral]

theorem reset_ne_nil : reset ≠ [] := select_ne_nil "0"

theorem withoutRenditions_append_reset_append (front behind : Text) :
    withoutRenditions (front ++ (reset ++ behind)) =
      withoutRenditions front ++ withoutRenditions behind :=
  withoutRenditions_append_select_append front rfl behind

/-- The colour that is switched on again behind every reset is deleted with the reset. -/
theorem withoutRenditions_resumed (colour : Colour) (text : Text) :
    withoutRenditions (Text.replaceAll reset (reset ++ colour.code) text) =
      withoutRenditions text := by
  -- from the first reset to what stands behind it
  induction size : text.length using Nat.strongRecOn generalizing text with
  | ind length ih =>
    cases found : Text.cut? reset text with
    | none =>
        rw [Text.replaceAll_of_not_occursIn _ (by rw [Text.occursIn, found]; rfl)]
    | some parts =>
        obtain ⟨front, behind⟩ := parts
        have whole : text = front ++ (reset ++ behind) := by
          rw [Text.append_of_cut? found, List.append_assoc]
        have shorter : behind.length < length := by
          have positive : 0 < reset.length := List.length_pos_of_ne_nil reset_ne_nil
          rw [← size, whole, List.length_append, List.length_append]
          omega
        rw [Text.replaceAll_of_cut? reset_ne_nil _ found, List.append_assoc reset,
          withoutRenditions_append_reset_append, withoutRenditions_code_append,
          ih _ shorter behind rfl, whole, withoutRenditions_append_reset_append]

theorem withoutRenditions_paint (colour : Colour) (text : Text) :
    withoutRenditions (colour.paint text) = withoutRenditions text := by
  have ended := withoutRenditions_append_reset_append
    (Text.replaceAll reset (reset ++ colour.code) text) []
  rw [List.append_nil, withoutRenditions_nil, List.append_nil] at ended
  rw [paint, List.append_assoc, withoutRenditions_code_append, ended, withoutRenditions_resumed]

end Colour

namespace Formatter

open Terminal (withoutRenditions)

theorem withoutRenditions_showLine (colour : Bool) (level : Nat) (line : Text) :
    (showLine colour level line).map withoutRenditions =
      (showLine false level line).map withoutRenditions := by
  simp only [showLine]
  split
  · rfl
  · cases (Diagnostic.ofLine line).kind with
    | none => rfl
    | some kind => cases colour <;> simp [Colour.withoutRenditions_paint]

/-- Compiler output is the same text in colours and without them. -/
theorem withoutRenditions_presentOutput_eq (formatter : Formatter) (colour : Bool) (level : Nat)
    (text : Text) :
    withoutRenditions (formatter.presentOutput colour level text) =
      withoutRenditions (formatter.presentOutput false level text) := by
  cases formatter with
  | plain => rfl
  | rich paintsMessages paintsOutput =>
      have sameLines (painted : Bool) :
          ((Text.lines text).filterMap (showLine painted level)).map withoutRenditions =
            ((Text.lines text).filterMap (showLine false level)).map withoutRenditions := by
        rw [List.map_filterMap, List.map_filterMap]
        exact congrArg (List.filterMap · (Text.lines text))
          (funext fun line => withoutRenditions_showLine painted level line)
      simp only [presentOutput, Bool.false_and]
      rw [Terminal.withoutRenditions_joinWith_newline, Terminal.withoutRenditions_joinWith_newline,
        sameLines]

theorem withoutRenditions_presentMessage_eq (paintsMessages first second : Bool)
    (severity : Severity) (message : Text) :
    withoutRenditions ((Formatter.rich paintsMessages first).presentMessage severity message) =
      withoutRenditions ((Formatter.rich false second).presentMessage severity message) := by
  cases paintsMessages with
  | false => rfl
  | true => exact Colour.withoutRenditions_paint _ _

/-- Colours change nothing in a text but the sequences that select renditions: with these deleted,
what is shown of compiler output and of the program's own messages is the same in colours and
without them. -/
theorem colours_change_renditions_only :
    (∀ (formatter : Formatter) (level : Nat) (text : Text),
      withoutRenditions (formatter.presentOutput true level text) =
        withoutRenditions (formatter.presentOutput false level text)) ∧
      ∀ (first second : Bool) (severity : Severity) (message : Text),
        withoutRenditions ((Formatter.rich true first).presentMessage severity message) =
          withoutRenditions ((Formatter.rich false second).presentMessage severity message) :=
  ⟨fun formatter level text => withoutRenditions_presentOutput_eq formatter true level text,
    fun first second severity message =>
      withoutRenditions_presentMessage_eq true first second severity message⟩

end Formatter

end CompilerFront
