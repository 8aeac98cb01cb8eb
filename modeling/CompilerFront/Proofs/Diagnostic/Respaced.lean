import CompilerFront.Proofs.Diagnostic.Quotation
import CompilerFront.Proofs.Diagnostic.Segments
import Mathlib.Data.List.Infix

set_option autoImplicit false

/-!
How the fragments of a line stand in the line itself. A message is joined from trimmed segments, so
a fragment is a stretch of the line in which every cut, with the blanks around it, is written in one
way; it occurs verbatim if the line has its cuts in that way already.
-/
namespace CompilerFront.Diagnostic

/-- A place at which a text is cut, with the blanks around it. -/
def IsGap (before gap after : Text) : Prop :=
  ∃ left cut right, gap = left ++ cut :: right ∧ Text.isAllBlank left = true ∧
    Text.isAllBlank right = true ∧ isCut (before ++ left).getLast? cut (right ++ after) = true

/-- A text is a raw one with `joint` in place of the gaps that are given in order. Between the gaps
nothing is cut, and no blanks are left beside the joints. -/
inductive Respaced (joint : Text) : List Text → Text → Text → Prop
  | last {part : Text} (whole : IsWhole part) : Respaced joint [] part part
  | gap {part gap raw text : Text} {gaps : List Text} (whole : IsWhole part)
      (isGap : IsGap part gap raw) (ended : ∀ c ∈ part.getLast?, Text.isBlank c = false)
      (started : ∀ c ∈ text.head?, Text.isBlank c = false) (rest : Respaced joint gaps raw text) :
      Respaced joint (gap :: gaps) (part ++ gap ++ raw) (part ++ joint ++ text)

theorem Respaced.eq_of_even {joint raw text : Text} {gaps : List Text}
    (respaced : Respaced joint gaps raw text) (even : ∀ gap ∈ gaps, gap = joint) : text = raw := by
  induction respaced with
  | last whole => rfl
  | gap whole isGap ended started rest ih =>
      obtain ⟨first, others⟩ := List.forall_mem_cons.mp even
      rw [ih others, first]

theorem isCut_of_append {farther before after behind : Text} {outer : Option Char} {cut : Char}
    (isCutOff : isCut ((farther ++ before).getLast?.or outer) cut (after ++ behind) = true) :
    isCut before.getLast? cut after = true := by
  rw [isCut_iff] at isCutOff ⊢
  rcases isCutOff with ⟨colon, left, right⟩ | ⟨comma, ended⟩
  · refine .inl ⟨colon, fun last => left ?_, fun head => right ?_⟩
    · rw [List.getLast?_append, last]
      rfl
    · rw [List.head?_append, head]
      rfl
  · exact .inr ⟨comma, (List.append_eq_nil_iff.mp ended).1⟩

theorem IsGap.of_append {farther before gap after behind : Text}
    (isGap : IsGap (farther ++ before) gap (after ++ behind)) : IsGap before gap after := by
  obtain ⟨left, cut, right, rfl, leftBlank, rightBlank, isCutOff⟩ := isGap
  have framed : isCut ((farther ++ (before ++ left)).getLast?.or none) cut
      ((right ++ after) ++ behind) = true := by simpa using isCutOff
  exact ⟨left, cut, right, rfl, leftBlank, rightBlank, isCut_of_append framed⟩

/-- What stands between characters other than colons is whole in a whole text. -/
theorem IsWhole.of_append {left text right : Text} (whole : IsWhole (left ++ text ++ right))
    (leftLast : left.getLast? ≠ some ':') (rightHead : right.head? ≠ some ':') : IsWhole text := by
  rintro before behind rfl
  have same : left ++ (before ++ ':' :: behind) ++ right =
      (left ++ before) ++ ':' :: (behind ++ right) := by simp
  rcases whole _ _ same with last | next
  · left
    rw [List.getLast?_append] at last
    cases shown : before.getLast? with
    | none => rw [shown] at last; exact absurd last leftLast
    | some c => rw [shown] at last; exact last
  · right
    rw [List.head?_append] at next
    cases shown : behind.head? with
    | none => rw [shown] at next; exact absurd next rightHead
    | some c => rw [shown] at next; exact next

theorem IsWhole.around {before behind : Text} {c : Char} (whole : IsWhole (before ++ c :: behind))
    (other : c ≠ ':') : IsWhole before ∧ IsWhole behind := by
  constructor
  · have framed : IsWhole ([] ++ before ++ c :: behind) := whole
    exact framed.of_append (by simp) (by simpa using other)
  · have framed : IsWhole (before ++ [c] ++ behind ++ []) := by simpa using whole
    exact framed.of_append (by simpa using other) (by simp)

theorem colon_not_mem_of_isAllBlank {blanks : Text} (blank : Text.isAllBlank blanks = true) :
    ':' ∉ blanks := by
  intro inside
  have colonBlank := List.all_eq_true.mp blank ':' inside
  revert colonBlank
  decide

theorem IsWhole.trim {text : Text} (whole : IsWhole text) : IsWhole (Text.trim text) := by
  obtain ⟨left, right, same, leftBlank, rightBlank⟩ := Text.exists_blanks_trim text
  rw [same] at whole
  exact whole.of_append
    (fun last => colon_not_mem_of_isAllBlank leftBlank (List.mem_of_getLast? last))
    (fun head => colon_not_mem_of_isAllBlank rightBlank (List.mem_of_head? head))

namespace Respaced

variable {joint part gap raw text before behind : Text} {gaps : List Text} {c : Char}

theorem gap_before {rawBehind : Text} (whole : IsWhole part)
    (isGap : IsGap part gap (raw ++ c :: rawBehind))
    (ended : ∀ d ∈ part.getLast?, Text.isBlank d = false)
    (started : ∀ d ∈ (before ++ c :: behind).head?, Text.isBlank d = false)
    (rest : Respaced joint gaps raw before) :
    Respaced joint (gap :: gaps) (part ++ gap ++ raw) (part ++ (joint ++ before)) := by
  have shorter : IsGap part gap raw := by
    have framed : IsGap ([] ++ part) gap (raw ++ c :: rawBehind) := isGap
    exact framed.of_append
  have startedBefore : ∀ d ∈ before.head?, Text.isBlank d = false := by
    intro d head
    apply started d
    rw [List.head?_append, Option.mem_def.mp head]
    rfl
  rw [← List.append_assoc]
  exact .gap whole shorter ended startedBefore rest

theorem gap_behind (whole : IsWhole part) (isGap : IsGap (before ++ c :: part) gap raw)
    (ended : ∀ d ∈ (before ++ c :: part).getLast?, Text.isBlank d = false)
    (started : ∀ d ∈ text.head?, Text.isBlank d = false) (rest : Respaced joint gaps raw text) :
    Respaced joint (gap :: gaps) (part ++ gap ++ raw) (part ++ (joint ++ text)) := by
  have shorter : IsGap part gap raw := by
    have framed : IsGap ((before ++ [c]) ++ part) gap (raw ++ []) := by simpa using isGap
    exact framed.of_append
  have endedPart : ∀ d ∈ part.getLast?, Text.isBlank d = false := by
    intro d last
    apply ended d
    have solid : part ≠ [] := List.ne_nil_of_mem (List.mem_of_getLast? last)
    rw [List.getLast?_append_cons, getLast?_cons_of_ne_nil c solid]
    exact last
  rw [← List.append_assoc]
  exact .gap whole shorter endedPart started rest

/-- A character that is in no joint is in the raw text too, and what is on either side of it is
respaced. -/
theorem split (respaced : Respaced joint gaps raw text) (same : text = before ++ c :: behind)
    (apart : c ∉ joint) (notColon : c ≠ ':') :
    ∃ rawBefore rawBehind gapsBefore gapsBehind, raw = rawBefore ++ c :: rawBehind ∧
      gaps = gapsBefore ++ gapsBehind ∧ Respaced joint gapsBefore rawBefore before ∧
      Respaced joint gapsBehind rawBehind behind := by
  induction respaced generalizing before with
  | last whole =>
      subst same
      obtain ⟨wholeBefore, wholeBehind⟩ := whole.around notColon
      exact ⟨before, behind, [], [], rfl, rfl, .last wholeBefore, .last wholeBehind⟩
  | @gap part gap raw text gaps whole isGap ended started rest ih =>
      rw [List.append_assoc] at same
      rcases Text.append_eq_append_cons same with ⟨later, rfl, inner⟩ | ⟨between, rfl, rfl⟩
      · rcases Text.append_eq_append_cons inner with ⟨between, rfl, rfl⟩ | ⟨_, inside, -⟩
        · obtain ⟨rawBefore, rawBehind, gapsBefore, gapsBehind, rfl, rfl, first, second⟩ := ih rfl
          exact ⟨part ++ gap ++ rawBefore, rawBehind, gap :: gapsBefore, gapsBehind, by simp, rfl,
            gap_before whole isGap ended started first, second⟩
        · rw [inside] at apart
          exact absurd (List.mem_append_right _ List.mem_cons_self) apart
      · obtain ⟨wholeBefore, wholeBetween⟩ := whole.around notColon
        exact ⟨before, between ++ gap ++ raw, [], gap :: gaps, by simp, rfl, .last wholeBefore,
          gap_behind wholeBetween isGap ended started rest⟩

/-- Joints without blanks leave no blank behind a colon, unless it is the second of two. -/
theorem solid_behind_colon (respaced : Respaced ":" gaps raw text)
    (same : text = before ++ ':' :: behind) :
    before.getLast? = some ':' ∨ ∀ d ∈ behind.head?, Text.isBlank d = false := by
  induction respaced generalizing before with
  | last whole =>
      refine (whole _ _ same).imp_right fun next d head => ?_
      rw [next] at head
      obtain rfl := Option.some.inj head
      decide
  | @gap part gap raw text gaps whole isGap ended started rest ih =>
      rw [List.append_assoc] at same
      rcases Text.append_eq_append_cons same with ⟨later, rfl, inner⟩ | ⟨between, rfl, rfl⟩
      · cases later with
        | nil =>
            rw [List.nil_append] at inner
            obtain rfl : text = behind := (List.cons.inj inner).2
            exact .inr started
        | cons c later =>
            have deeper : text = later ++ ':' :: behind := (List.cons.inj inner).2
            refine (ih deeper).imp_left fun last => ?_
            rw [List.getLast?_append, List.getLast?_cons, last]
            rfl
      · refine (whole _ _ rfl).imp_right fun next d head => ?_
        rw [List.head?_append, next] at head
        obtain rfl := Option.some.inj head
        decide

end Respaced

theorem head?_joinWith_trim {joint : Text} (solid : ∀ c ∈ joint.head?, Text.isBlank c = false)
    (part : Text) (parts : List Text) :
    ∀ c ∈ (Text.joinWith joint ((part :: parts).map Text.trim)).head?, Text.isBlank c = false := by
  induction parts generalizing part with
  | nil => simpa using Text.head?_trim part
  | cons next parts ih =>
      intro c head
      rw [List.map_cons, List.map_cons, Text.joinWith_cons_cons, List.append_assoc,
        List.head?_append, List.head?_append, ← List.map_cons, Option.mem_def,
        Option.or_eq_some_iff, Option.or_eq_some_iff] at head
      rcases head with here | ⟨-, between | ⟨-, behind⟩⟩
      · exact Text.head?_trim part c here
      · exact solid c between
      · exact ih next c behind

/-- Joining the trimmed pieces of a text respaces it, blanks at its ends apart. -/
theorem CutUp.respaced {joint : Text} (solid : ∀ c ∈ joint.head?, Text.isBlank c = false)
    {before : Option Char} {piece : Text} {others : List (Char × Text)}
    (cutUp : CutUp before piece others) (pieceWhole : IsWhole piece) :
    ∃ left raw right gaps, recut piece others = left ++ raw ++ right ∧
      Text.isAllBlank left = true ∧
      Respaced joint gaps raw
        (Text.joinWith joint ((piece :: others.map Prod.snd).map Text.trim)) := by
  induction cutUp with
  | @last before piece whole =>
      obtain ⟨left, right, same, leftBlank, -⟩ := Text.exists_blanks_trim piece
      refine ⟨left, Text.trim piece, right, [], ?_, leftBlank, ?_⟩
      · rw [← same]
        simp [recut]
      · simpa using Respaced.last pieceWhole.trim
  | @cut before piece next cut others whole isCutOff rest ih =>
      obtain ⟨nextLeft, raw, right, gaps, shape, nextBlank, respaced⟩ := ih (rest.isWhole_of_isCut isCutOff)
      obtain ⟨left, trimmed, same, leftBlank, trimmedBlank⟩ := Text.exists_blanks_trim piece
      have isGap : IsGap (Text.trim piece) (trimmed ++ cut :: nextLeft) raw := by
        refine ⟨trimmed, cut, nextLeft, rfl, trimmedBlank, nextBlank, ?_⟩
        have framed : isCut ((left ++ (Text.trim piece ++ trimmed)).getLast?.or before) cut
            ((nextLeft ++ raw) ++ right) = true := by
          rw [← List.append_assoc, ← same, ← shape]
          exact isCutOff
        exact isCut_of_append framed
      refine ⟨left, Text.trim piece ++ (trimmed ++ cut :: nextLeft) ++ raw, right,
        (trimmed ++ cut :: nextLeft) :: gaps, ?_, leftBlank, ?_⟩
      · calc recut piece ((cut, next) :: others)
            = piece ++ cut :: (nextLeft ++ raw ++ right) := by rw [recut_cons, shape]
          _ = (left ++ Text.trim piece ++ trimmed) ++ cut :: (nextLeft ++ raw ++ right) := by
            rw [← same]
          _ = left ++ (Text.trim piece ++ (trimmed ++ cut :: nextLeft) ++ raw) ++ right := by simp
      · rw [List.map_cons, List.map_cons, List.map_cons, Text.joinWith_cons_cons]
        exact .gap pieceWhole.trim isGap (Text.getLast?_trim piece)
          (head?_joinWith_trim solid next (others.map Prod.snd)) respaced

/-- The pieces at the end of a text, trimmed and joined, are a respaced stretch of it. -/
theorem CutUp.respaced_of_suffix {joint : Text}
    (solid : ∀ c ∈ joint.head?, Text.isBlank c = false) {before : Option Char} {piece : Text}
    {others : List (Char × Text)} (cutUp : CutUp before piece others) (pieceWhole : IsWhole piece)
    {parts : List Text} (suffix : parts <:+ (piece :: others.map Prod.snd).map Text.trim) :
    ∃ raw gaps, raw <:+: recut piece others ∧
      Respaced joint gaps raw (Text.joinWith joint parts) := by
  rcases List.suffix_cons_iff.mp suffix with rfl | later
  · obtain ⟨left, raw, right, gaps, shape, -, respaced⟩ := cutUp.respaced solid pieceWhole
    exact ⟨raw, gaps, ⟨left, right, shape.symm⟩, respaced⟩
  · cases cutUp with
    | last whole =>
        rw [List.suffix_nil.mp later]
        exact ⟨[], [], List.nil_infix, .last (isWhole_of_not_mem List.not_mem_nil)⟩
    | @cut _ _ next cut others whole isCutOff rest =>
        obtain ⟨raw, gaps, inside, respaced⟩ :=
          rest.respaced_of_suffix solid (rest.isWhole_of_isCut isCutOff) later
        have behind : recut next others <:+: recut piece ((cut, next) :: others) := by
          rw [recut_cons]
          exact ((List.suffix_cons cut _).trans (List.suffix_append piece _)).isInfix
        exact ⟨raw, gaps, inside.trans behind, respaced⟩

/-- Consecutive segments at the end of a line, joined, are a respaced stretch of the line. -/
theorem respaced_of_suffix {joint : Text} (solid : ∀ c ∈ joint.head?, Text.isBlank c = false)
    (line : Text) {parts : List Text} (suffix : parts <:+ segments (Text.trim line)) :
    ∃ raw gaps, raw <:+: line ∧ Respaced joint gaps raw (Text.joinWith joint parts) := by
  obtain ⟨piece, others, shape, same, cutUp⟩ := exists_recut (Text.trim line) none
  rw [segments, shape] at suffix
  obtain ⟨raw, gaps, inside, respaced⟩ :=
    cutUp.respaced_of_suffix solid (isWholeBehind_none.mp cutUp.whole) suffix
  rw [← same] at inside
  exact ⟨raw, gaps, inside.trans (Text.trim_infix line), respaced⟩

/-- What stands for a gap in the fragments of a line: quoted code is taken out of the message, which
has spaces behind its colons, and a message that quotes nothing is put together without them. -/
def joint (line : Text) : Text :=
  if quotations (ofLine line).message = [] then ":" else ": "

theorem not_isBlank_of_head?_colon (rest : Text) :
    ∀ c ∈ (':' :: rest).head?, Text.isBlank c = false := by
  intro c head
  rw [List.head?_cons, Option.mem_some] at head
  subst head
  decide

/-- Where a fragment comes from: its quotes are in the line as well, if anything is quoted. -/
def origin (line raw : Text) : Text :=
  if quotations (ofLine line).message = [] then raw else openQuote :: (raw ++ [closeQuote])

theorem infix_origin (line raw : Text) : raw <:+: origin line raw := by
  unfold origin
  split
  · exact List.infix_rfl
  · exact ⟨[openQuote], [closeQuote], rfl⟩

/-- Each fragment of a line comes from a stretch of it, with the same joint for every gap. It occurs
verbatim if the gaps in that stretch are written like the joint. -/
theorem ofLine_fragment_respaced {line fragment : Text}
    (inside : fragment ∈ (ofLine line).fragments) :
    ∃ raw gaps, origin line raw <:+: line ∧ Respaced (joint line) gaps raw fragment ∧
      ((∀ gap ∈ gaps, gap = joint line) → fragment <:+: line) := by
  suffices found : ∃ raw gaps, origin line raw <:+: line ∧
      Respaced (joint line) gaps raw fragment by
    obtain ⟨raw, gaps, stretch, respaced⟩ := found
    refine ⟨raw, gaps, stretch, respaced, fun even => ?_⟩
    rw [respaced.eq_of_even even]
    exact (infix_origin line raw).trans stretch
  obtain ⟨diagnostic, parts, suffix, same⟩ := ofSegments_eq_withMessage (segments (Text.trim line))
  have read : ofLine line = Diagnostic.withMessage diagnostic parts := same
  have message : (ofLine line).message = Text.joinWith ": " parts := by rw [read]; rfl
  have fragments : (ofLine line).fragments =
      if (quotations (Text.joinWith ": " parts)).isEmpty then
        [plainFragment parts].filter (!·.isEmpty)
      else quotations (Text.joinWith ": " parts) := by
    rw [read]
    rfl
  simp only [joint, origin, message]
  by_cases plain : quotations (Text.joinWith ": " parts) = []
  · simp only [if_pos plain]
    rw [fragments, plain, List.isEmpty_nil, if_pos rfl] at inside
    obtain rfl := List.mem_singleton.mp (List.mem_of_mem_filter inside)
    rw [plainFragment_eq]
    exact respaced_of_suffix (not_isBlank_of_head?_colon []) line
      ((named_suffix parts).trans suffix)
  · simp only [if_neg plain]
    rw [fragments, if_neg (by simpa using plain)] at inside
    obtain ⟨before, behind, shape⟩ := exists_of_mem_quotations inside
    obtain ⟨raw, gaps, stretch, respaced⟩ :=
      respaced_of_suffix (not_isBlank_of_head?_colon [' ']) line suffix
    -- No quote is in a joint, so both quotes are in the line, around what became the fragment.
    obtain ⟨rawBefore, rawFrom, -, gapsFrom, rfl, -, -, fromOpening⟩ :=
      respaced.split shape (by decide) (by decide)
    obtain ⟨rawFragment, rawBehind, gapsFragment, -, rfl, -, framed, -⟩ :=
      fromOpening.split rfl (by decide) (by decide)
    refine ⟨rawFragment, gapsFragment, List.IsInfix.trans ?_ stretch, framed⟩
    exact ⟨rawBefore, rawBehind, by simp⟩

theorem conditional_respaced :
    "x ? a: b".toList ∈ (ofLine "a.cpp:1: error: ‘x ? a: b’ is private").fragments ∧
      ∃ raw gaps, origin "a.cpp:1: error: ‘x ? a: b’ is private" raw <:+:
          "a.cpp:1: error: ‘x ? a: b’ is private".toList ∧
        Respaced (joint "a.cpp:1: error: ‘x ? a: b’ is private") gaps raw "x ? a: b" ∧
        ((∀ gap ∈ gaps, gap = joint "a.cpp:1: error: ‘x ? a: b’ is private") →
          "x ? a: b".toList <:+: "a.cpp:1: error: ‘x ? a: b’ is private".toList) := by
  have inside : "x ? a: b".toList ∈ (ofLine "a.cpp:1: error: ‘x ? a: b’ is private").fragments := by
    decide +kernel
  exact ⟨inside, ofLine_fragment_respaced inside⟩

/-- A blank in front of a colon is lost: what is quoted in this line is not what is reported, and
what is reported is nowhere in the line. -/
theorem conditional_not_verbatim :
    (ofLine "a.cpp:1: error: ‘x ? std::a : std::b’ is private").fragments =
        ["x ? std::a: std::b".toList] ∧
      ¬ "x ? std::a: std::b".toList <:+:
        "a.cpp:1: error: ‘x ? std::a : std::b’ is private".toList := by
  decide +kernel

end CompilerFront.Diagnostic
