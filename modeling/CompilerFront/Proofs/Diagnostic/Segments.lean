import CompilerFront.Diagnostic
import CompilerFront.Proofs.Text.Trim
import Mathlib.Data.List.Basic

set_option autoImplicit false

namespace CompilerFront.Diagnostic

/-- No colon stands alone: each has another one right in front of it or right behind it. -/
def IsWhole (text : Text) : Prop :=
  ∀ before behind, text = before ++ ':' :: behind →
    before.getLast? = some ':' ∨ behind.head? = some ':'

/-- A part of a line that colons on either side of it cut out. -/
structure IsPart (text : Text) : Prop where
  ne_nil : text ≠ []
  head?_ne : text.head? ≠ some ':'
  getLast?_ne : text.getLast? ≠ some ':'
  isWhole : IsWhole text

theorem isWhole_iff {text : Text} :
    IsWhole text ↔ ∀ i < text.length, text[i]? = some ':' →
      (0 < i ∧ text[i - 1]? = some ':') ∨ text[i + 1]? = some ':' := by
  constructor
  · intro whole i inside colon
    obtain ⟨bound, same⟩ := List.getElem?_eq_some_iff.mp colon
    have split : text = text.take i ++ ':' :: text.drop (i + 1) := by
      rw [← same, ← List.drop_eq_getElem_cons bound, List.take_append_drop]
    rcases whole _ _ split with before | behind
    · left
      rw [List.getLast?_take] at before
      split at before
      · cases before
      · rename_i positive
        have found : text[i - 1]? = some text[i - 1] := List.getElem?_eq_getElem (by omega)
        rw [found, Option.some_or] at before
        exact ⟨Nat.pos_of_ne_zero positive, found.trans before⟩
    · right
      rwa [List.head?_drop] at behind
  · rintro beside before behind rfl
    have here := beside before.length (by simp) (by simp)
    rcases here with ⟨positive, left⟩ | right
    · left
      rw [List.getElem?_append_left (by omega)] at left
      rw [List.getLast?_eq_getElem?, left]
    · right
      rw [List.getElem?_append_right (by omega)] at right
      simpa [List.head?_eq_getElem?] using right

instance : DecidablePred IsWhole := fun _ => decidable_of_iff' _ isWhole_iff

instance : DecidablePred IsPart := fun text =>
  decidable_of_iff
    (text ≠ [] ∧ text.head? ≠ some ':' ∧ text.getLast? ≠ some ':' ∧ IsWhole text)
    ⟨fun ⟨solid, head, last, whole⟩ => ⟨solid, head, last, whole⟩,
      fun part => ⟨part.ne_nil, part.head?_ne, part.getLast?_ne, part.isWhole⟩⟩

theorem isWhole_of_not_mem {text : Text} (absent : ':' ∉ text) : IsWhole text := by
  rintro before behind rfl
  simp at absent

theorem IsWhole.cons {c : Char} {text : Text} (other : c ≠ ':') (whole : IsWhole text) :
    IsWhole (c :: text) := by
  intro before behind same
  cases before with
  | nil =>
      rw [List.nil_append, List.cons.injEq] at same
      exact absurd same.1 other
  | cons d before =>
      rw [List.cons_append, List.cons.injEq] at same
      rcases whole before behind same.2 with last | next
      · left
        rw [List.getLast?_cons, last]
        rfl
      · exact .inr next

theorem isPart_of_not_mem {text : Text} (solid : text ≠ []) (absent : ':' ∉ text) : IsPart text where
  ne_nil := solid
  head?_ne := fun head => absent (List.mem_of_head? head)
  getLast?_ne := fun last => absent (List.mem_of_getLast? last)
  isWhole := isWhole_of_not_mem absent

theorem getLast?_cons_of_ne_nil (c : Char) {text : Text} (solid : text ≠ []) :
    (c :: text).getLast? = text.getLast? :=
  List.getLast?_append_of_ne_nil [c] solid

theorem IsPart.cons {c : Char} {text : Text} (other : c ≠ ':') (part : IsPart text) :
    IsPart (c :: text) where
  ne_nil := List.cons_ne_nil c text
  head?_ne := by simpa using other
  getLast?_ne := by
    rw [getLast?_cons_of_ne_nil c part.ne_nil]
    exact part.getLast?_ne
  isWhole := part.isWhole.cons other

theorem isCut_iff {before : Option Char} {c : Char} {rest : Text} :
    isCut before c rest = true ↔
      (c = ':' ∧ before ≠ some ':' ∧ rest.head? ≠ some ':') ∨ (c = ',' ∧ rest = []) := by
  simp [isCut, and_assoc]

/-- A line is not cut inside of a text with no lone colon, unless the line ends in its comma. -/
theorem isCut_of_isWhole {front back rest : Text} {c : Char} (whole : IsWhole (front ++ c :: back))
    (comma : c = ',' → back ++ rest ≠ []) (before : Option Char) :
    isCut (front.getLast?.or before) c (back ++ rest) = false := by
  rw [← Bool.not_eq_true, isCut_iff]
  rintro (⟨rfl, notLeft, notRight⟩ | ⟨ends, ended⟩)
  · rcases whole front back rfl with last | next
    · rw [last] at notLeft
      exact notLeft rfl
    · rw [List.head?_append, next] at notRight
      exact notRight rfl
  · exact comma ends ended

theorem getLast?_cons_or (c : Char) (text : Text) (before : Option Char) :
    (c :: text).getLast?.or before = text.getLast?.or (some c) := by
  rw [List.getLast?_cons]
  cases text.getLast? <;> rfl

theorem pieces_append {text rest piece : Text} {others : List Text} (before : Option Char)
    (uncut : ∀ front c back, text = front ++ c :: back →
      isCut (front.getLast?.or before) c (back ++ rest) = false)
    (followed : pieces (text.getLast?.or before) rest = piece :: others) :
    pieces before (text ++ rest) = (text ++ piece) :: others := by
  induction text generalizing before with
  | nil => exact followed
  | cons c text ih =>
      have first : isCut before c (text ++ rest) = false := uncut [] c text rfl
      have more := ih (some c)
        (fun front d back same => by
          rw [← getLast?_cons_or c front before]
          exact uncut (c :: front) d back (by rw [same, List.cons_append]))
        (by rw [← getLast?_cons_or c text before]; exact followed)
      rw [List.cons_append, pieces, first, more]
      rfl

theorem pieces_of_isWhole {text : Text} (whole : IsWhole text)
    (noComma : text.getLast? ≠ some ',') (before : Option Char) : pieces before text = [text] := by
  have uncut : ∀ front c back, text = front ++ c :: back →
      isCut (front.getLast?.or before) c (back ++ []) = false := by
    rintro front c back rfl
    refine isCut_of_isWhole whole (fun comma ended => noComma ?_) before
    rw [List.append_nil] at ended
    rw [ended, comma, List.getLast?_concat]
  have alone := pieces_append before uncut (show pieces _ [] = [[]] from rfl)
  rwa [List.append_nil] at alone

/-- A part is cut off at a character that is cut unless a colon is in front of it. -/
theorem pieces_isPart_append_of_isCut {part rest : Text} {c : Char} (isPart : IsPart part)
    (isCutOff : ∀ left, left ≠ some ':' → isCut left c rest = true) (before : Option Char) :
    pieces before (part ++ c :: rest) = part :: pieces (some c) rest := by
  have uncut : ∀ front d back, part = front ++ d :: back →
      isCut (front.getLast?.or before) d (back ++ c :: rest) = false := by
    rintro front d back rfl
    exact isCut_of_isWhole isPart.isWhole (fun _ => by simp) before
  have last : part.getLast?.or before ≠ some ':' := by
    obtain ⟨d, shown⟩ := Option.isSome_iff_exists.mp (List.getLast?_isSome.mpr isPart.ne_nil)
    rw [shown, Option.some_or, ← shown]
    exact isPart.getLast?_ne
  have cut : pieces (part.getLast?.or before) (c :: rest) = [] :: pieces (some c) rest := by
    rw [pieces, isCutOff _ last]
    rfl
  rw [pieces_append before uncut cut, List.append_nil]

theorem pieces_isPart_append {part rest : Text} (isPart : IsPart part)
    (next : rest.head? ≠ some ':') (before : Option Char) :
    pieces before (part ++ ':' :: rest) = part :: pieces (some ':') rest :=
  pieces_isPart_append_of_isCut isPart (fun left other => by simp [isCut, other, next]) before

theorem pieces_joinWith_append {parts : List Text} {rest : Text} {c : Char} (started : parts ≠ [])
    (areParts : ∀ part ∈ parts, IsPart part)
    (isCutOff : ∀ left, left ≠ some ':' → isCut left c rest = true) (before : Option Char) :
    pieces before (Text.joinWith ":" parts ++ c :: rest) = parts ++ pieces (some c) rest := by
  induction parts generalizing before with
  | nil => exact absurd rfl started
  | cons part parts ih =>
      obtain ⟨isPart, others⟩ := List.forall_mem_cons.mp areParts
      cases parts with
      | nil =>
          rw [Text.joinWith_singleton, pieces_isPart_append_of_isCut isPart isCutOff]
          rfl
      | cons next parts =>
          have second := others next List.mem_cons_self
          have behind : (Text.joinWith ":" (next :: parts) ++ c :: rest).head? ≠ some ':' := by
            rw [List.head?_append, Text.head?_joinWith ":" second.ne_nil]
            obtain ⟨d, tail, rfl⟩ := List.exists_cons_of_ne_nil second.ne_nil
            exact second.head?_ne
          have joined : Text.joinWith ":" (part :: next :: parts) ++ c :: rest =
              part ++ ':' :: (Text.joinWith ":" (next :: parts) ++ c :: rest) := by
            rw [Text.joinWith_cons_cons, List.append_assoc, List.append_assoc]
            rfl
          rw [joined, pieces_isPart_append isPart behind,
            ih (List.cons_ne_nil next parts) others]
          rfl

/-- Joining parts with colons and cutting the line at its colons gives the parts back. -/
theorem pieces_joinWith {parts : List Text} (started : parts ≠ [])
    (areParts : ∀ part ∈ parts, IsPart part)
    (noComma : ∀ part ∈ parts.getLast?, part.getLast? ≠ some ',') (before : Option Char) :
    pieces before (Text.joinWith ":" parts) = parts := by
  obtain ⟨others, last, rfl⟩ := (List.eq_nil_or_concat parts).resolve_left started
  rw [List.concat_eq_append] at areParts noComma ⊢
  have isPart : IsPart last := areParts last (by simp)
  have whole (left : Option Char) : pieces left last = [last] :=
    pieces_of_isWhole isPart.isWhole (noComma last (by simp)) left
  cases others with
  | nil => rw [List.nil_append, Text.joinWith_singleton, whole]
  | cons first others =>
      have joined : Text.joinWith ":" (first :: others ++ [last]) =
          Text.joinWith ":" (first :: others) ++ ':' :: last := by
        rw [Text.joinWith_append ":" (List.cons_ne_nil first others) (by simp),
          Text.joinWith_singleton, List.append_assoc]
        rfl
      have isCutOff : ∀ left, left ≠ some ':' → isCut left ':' last = true :=
        fun left other => by simp [isCut, other, isPart.head?_ne]
      rw [joined, pieces_joinWith_append (List.cons_ne_nil first others)
        (fun part inside => areParts part (List.mem_append_left [last] inside)) isCutOff, whole]

/-- A line up to the end of one piece, with the cuts and pieces behind it. -/
def recut (first : Text) (others : List (Char × Text)) : Text :=
  first ++ others.flatMap fun other => other.1 :: other.2

theorem recut_cons (first next : Text) (cut : Char) (others : List (Char × Text)) :
    recut first ((cut, next) :: others) = first ++ cut :: recut next others := by
  simp [recut]

theorem head?_of_pieces_colon {line first : Text} {others : List Text}
    (cutUp : pieces (some ':') line = first :: others) (colon : line.head? = some ':') :
    first.head? = some ':' := by
  obtain ⟨rest, rfl⟩ := List.head?_eq_some_iff.mp colon
  have joined : isCut (some ':') ':' rest = false := by simp [isCut]
  rw [pieces, joined] at cutUp
  obtain ⟨piece, pieces, shape⟩ := List.exists_cons_of_ne_nil (pieces_ne_nil (some ':') rest)
  simp only [Bool.false_eq_true, ↓reduceIte, shape, Text.consHead, List.cons.injEq] at cutUp
  rw [← cutUp.1]
  rfl

/-- No colon stands alone, seen with the character in front of the text. -/
def IsWholeBehind (before : Option Char) (text : Text) : Prop :=
  ∀ front back, text = front ++ ':' :: back →
    front.getLast?.or before = some ':' ∨ back.head? = some ':'

theorem isWholeBehind_none {text : Text} : IsWholeBehind none text ↔ IsWhole text := by
  simp only [IsWholeBehind, IsWhole, Option.or_none]

/-- A text does without the character in front of it unless it begins with a colon. -/
theorem IsWholeBehind.isWhole {before : Option Char} {text : Text}
    (whole : IsWholeBehind before text) (other : text.head? ≠ some ':') : IsWhole text := by
  intro front back split
  rcases whole front back split with last | next
  · left
    cases shown : front.getLast? with
    | none =>
        rw [List.getLast?_eq_none_iff.mp shown] at split
        rw [split] at other
        exact absurd rfl other
    | some c =>
        rw [shown] at last
        exact last
  · exact .inr next

theorem IsWholeBehind.cons {before : Option Char} {c : Char} {text : Text}
    (whole : IsWholeBehind (some c) text)
    (beside : c = ':' → before = some ':' ∨ text.head? = some ':') :
    IsWholeBehind before (c :: text) := by
  intro front back split
  cases front with
  | nil =>
      rw [List.nil_append, List.cons.injEq] at split
      obtain ⟨colon, rfl⟩ := split
      exact beside colon
  | cons d front =>
      rw [List.cons_append, List.cons.injEq] at split
      obtain ⟨rfl, split⟩ := split
      rw [getLast?_cons_or]
      exact whole front back split

/-- The pieces of a line with the cuts in front of them: nothing is cut in a piece, and the line is
cut between them. -/
inductive CutUp : Option Char → Text → List (Char × Text) → Prop
  | last {before : Option Char} {piece : Text} (whole : IsWholeBehind before piece) :
      CutUp before piece []
  | cut {before : Option Char} {piece next : Text} {cut : Char} {others : List (Char × Text)}
      (whole : IsWholeBehind before piece)
      (isCutOff : isCut (piece.getLast?.or before) cut (recut next others) = true)
      (rest : CutUp (some cut) next others) : CutUp before piece ((cut, next) :: others)

theorem CutUp.cons {before : Option Char} {c : Char} {piece : Text} {others : List (Char × Text)}
    (cutUp : CutUp (some c) piece others)
    (beside : c = ':' → before = some ':' ∨ piece.head? = some ':') :
    CutUp before (c :: piece) others := by
  cases cutUp with
  | last whole => exact .last (whole.cons beside)
  | cut whole isCutOff rest =>
      refine .cut (whole.cons beside) ?_ rest
      rw [getLast?_cons_or]
      exact isCutOff

theorem exists_recut (line : Text) (before : Option Char) :
    ∃ piece others, pieces before line = piece :: others.map Prod.snd ∧
      line = recut piece others ∧ CutUp before piece others := by
  induction line generalizing before with
  | nil => exact ⟨[], [], rfl, rfl, .last (by simp [IsWholeBehind])⟩
  | cons c line ih =>
      obtain ⟨piece, others, shape, same, cutUp⟩ := ih (some c)
      cases cut : isCut before c line with
      | true =>
          refine ⟨[], (c, piece) :: others, ?_, ?_, .cut (by simp [IsWholeBehind]) ?_ cutUp⟩
          · rw [pieces, cut, shape]
            rfl
          · rw [same]
            rfl
          · rw [← same]
            exact cut
      | false =>
          have beside : c = ':' → before = some ':' ∨ piece.head? = some ':' := by
            rintro rfl
            by_cases left : before = some ':'
            · exact .inl left
            · right
              refine head?_of_pieces_colon shape ?_
              simpa [isCut, left] using cut
          refine ⟨c :: piece, others, ?_, ?_, cutUp.cons beside⟩
          · rw [pieces, cut, shape]
            rfl
          · rw [same]
            rfl

theorem mem_of_mem_pieces {line piece : Text} {before : Option Char}
    (listed : piece ∈ pieces before line) {c : Char} (inside : c ∈ piece) : c ∈ line := by
  obtain ⟨first, others, shape, same, -⟩ := exists_recut line before
  rw [shape] at listed
  rw [same, recut, List.mem_append, List.mem_flatMap]
  rcases List.mem_cons.mp listed with rfl | behind
  · exact .inl inside
  · obtain ⟨other, place, rfl⟩ := List.mem_map.mp behind
    exact .inr ⟨other, place, List.mem_cons_of_mem other.1 inside⟩

theorem CutUp.whole {before : Option Char} {piece : Text} {others : List (Char × Text)}
    (cutUp : CutUp before piece others) : IsWholeBehind before piece := by
  cases cutUp with
  | last whole => exact whole
  | cut whole isCutOff rest => exact whole

/-- No colon stands at the start of what is behind a cut. -/
theorem CutUp.isWhole_of_isCut {before : Option Char} {cut : Char} {piece : Text}
    {others : List (Char × Text)} (cutUp : CutUp (some cut) piece others)
    (isCutOff : isCut before cut (recut piece others) = true) : IsWhole piece := by
  apply cutUp.whole.isWhole
  intro head
  obtain ⟨rest, rfl⟩ := List.head?_eq_some_iff.mp head
  rcases isCut_iff.mp isCutOff with ⟨-, -, right⟩ | ⟨-, ended⟩
  · exact right rfl
  · cases ended

end CompilerFront.Diagnostic
