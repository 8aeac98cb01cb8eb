import CompilerFront.Diagnostic
import CompilerFront.Proofs.Text.Occurrence
import Mathlib.Data.List.Infix

set_option autoImplicit false

namespace CompilerFront.Diagnostic

/-- A text with its quotations: the text in front of each and the fragment in it, and what follows
the last one. -/
structure QuotedText where
  quotes : List (Text × Text)
  rest : Text
  /-- A quotation begins at the first opening quote. -/
  unopened : ∀ quote ∈ quotes, openQuote ∉ quote.1
  /-- A quotation ends at the first closing quote behind that. -/
  unclosed : ∀ quote ∈ quotes, closeQuote ∉ quote.2
  /-- No quotation follows the last one. -/
  unquoted : ∀ before behind, rest = before ++ openQuote :: behind → closeQuote ∉ behind

namespace QuotedText

/-- A text up to its last quotation, with something written for each fragment. -/
def written (write : Text → Text) (quotes : List (Text × Text)) : Text :=
  quotes.flatMap fun quote => quote.1 ++ openQuote :: (write quote.2 ++ [closeQuote])

def text (quoted : QuotedText) : Text := written id quoted.quotes ++ quoted.rest

/-- The fragments that are not empty. -/
def fragments (quoted : QuotedText) : List Text :=
  (quoted.quotes.map Prod.snd).filter (!·.isEmpty)

theorem mem_fragments {quoted : QuotedText} {fragment : Text} :
    fragment ∈ quoted.fragments ↔ (∃ quote ∈ quoted.quotes, quote.2 = fragment) ∧ fragment ≠ [] := by
  simp [fragments]

@[simp] theorem written_nil (write : Text → Text) : written write [] = [] := rfl

theorem written_cons (write : Text → Text) (piece fragment : Text) (quotes : List (Text × Text)) :
    written write ((piece, fragment) :: quotes) =
      piece ++ openQuote :: (write fragment ++ closeQuote :: written write quotes) := by
  simp [written]

theorem written_append (write : Text → Text) (first second : List (Text × Text)) :
    written write (first ++ second) = written write first ++ written write second :=
  List.flatMap_append

theorem written_congr {first second : Text → Text} {quotes : List (Text × Text)}
    (same : ∀ quote ∈ quotes, first quote.2 = second quote.2) :
    written first quotes = written second quotes := by
  induction quotes with
  | nil => rfl
  | cons quote quotes ih =>
      obtain ⟨here, others⟩ := List.forall_mem_cons.mp same
      rw [written_cons, written_cons, here, ih others]

end QuotedText

theorem quotationsFrom_none_append {piece : Text} (unopened : openQuote ∉ piece) (rest : Text) :
    quotationsFrom none (piece ++ rest) = quotationsFrom none rest := by
  induction piece with
  | nil => rfl
  | cons c piece ih =>
      have other : c ≠ openQuote := (List.ne_of_not_mem_cons unopened).symm
      rw [List.cons_append, quotationsFrom_outside other, ih (List.not_mem_of_not_mem_cons unopened)]

theorem quotationsFrom_some_append {fragment : Text} (unclosed : closeQuote ∉ fragment)
    (read rest : Text) :
    quotationsFrom (some read) (fragment ++ rest) =
      quotationsFrom (some (read ++ fragment)) rest := by
  induction fragment generalizing read with
  | nil => simp
  | cons c fragment ih =>
      have other : c ≠ closeQuote := (List.ne_of_not_mem_cons unclosed).symm
      rw [List.cons_append, quotationsFrom_inside other,
        ih (List.not_mem_of_not_mem_cons unclosed), List.append_assoc, List.singleton_append]

theorem quotationsFrom_quotation {piece fragment : Text} (unopened : openQuote ∉ piece)
    (unclosed : closeQuote ∉ fragment) (rest : Text) :
    quotationsFrom none (piece ++ openQuote :: (fragment ++ closeQuote :: rest)) =
      [fragment].filter (!·.isEmpty) ++ quotationsFrom none rest := by
  have opened (behind : Text) :
      quotationsFrom none (openQuote :: behind) = quotationsFrom (some []) behind := rfl
  rw [quotationsFrom_none_append unopened, opened, quotationsFrom_some_append unclosed,
    List.nil_append]
  cases fragment with
  | nil => rfl
  | cons c fragment => rfl

theorem quotationsFrom_some_of_unclosed {text : Text} (unclosed : closeQuote ∉ text)
    (read : Text) : quotationsFrom (some read) text = [] := by
  rw [← List.append_nil text, quotationsFrom_some_append unclosed]
  rfl

/-- A quotation that is begun and not ended adds nothing, not even to a fragment that is still open:
to that the quote belongs, and it is not ended either. -/
theorem quotationsFrom_append_openQuote {unended : Text} (unclosed : closeQuote ∉ unended)
    (read : Option Text) (text : Text) :
    quotationsFrom read (text ++ openQuote :: unended) = quotationsFrom read text := by
  have stillOpen : closeQuote ∉ openQuote :: unended := by
    rw [List.mem_cons]
    rintro (same | inside)
    · exact absurd same (by decide)
    · exact unclosed inside
  fun_induction quotationsFrom read text with
  | case1 read =>
      cases read with
      | none => exact quotationsFrom_some_of_unclosed unclosed []
      | some fragment => exact quotationsFrom_some_of_unclosed stillOpen fragment
  | case2 c rest ih => exact ih
  | case3 fragment rest empty ih =>
      rw [List.cons_append, quotationsFrom, if_pos rfl, if_pos empty, ih]
  | case4 fragment rest solid ih =>
      rw [List.cons_append, quotationsFrom, if_pos rfl, if_neg solid, ih]
  | case5 fragment c rest other ih =>
      rw [List.cons_append, quotationsFrom_inside other, ih]

theorem quotations_of_unquoted {text : Text}
    (unquoted : ∀ before behind, text = before ++ openQuote :: behind → closeQuote ∉ behind) :
    quotations text = [] := by
  by_cases opened : openQuote ∈ text
  · obtain ⟨before, behind, rfl, unopened⟩ := List.eq_append_cons_of_mem opened
    have unclosed := unquoted before behind rfl
    rw [quotations, quotationsFrom_none_append unopened]
    exact quotationsFrom_some_of_unclosed unclosed []
  · rw [quotations, ← List.append_nil text, quotationsFrom_none_append opened]
    rfl

/-- Nothing is closed behind any opening quote if nothing is closed behind the first. -/
theorem unquoted_of_first {piece after : Text} (unopened : openQuote ∉ piece)
    (unclosed : closeQuote ∉ after) (before behind : Text)
    (same : piece ++ openQuote :: after = before ++ openQuote :: behind) :
    closeQuote ∉ behind := by
  intro inside
  rcases Text.append_eq_append_cons same with ⟨between, -, tail⟩ | ⟨between, head, -⟩
  · apply unclosed
    cases between with
    | nil =>
        rw [List.nil_append, List.cons.injEq] at tail
        rwa [tail.2]
    | cons c between =>
        rw [List.cons_append, List.cons.injEq] at tail
        rw [tail.2]
        exact List.mem_append_right _ (List.mem_cons_of_mem _ inside)
  · apply unopened
    rw [head]
    exact List.mem_append_right _ List.mem_cons_self

namespace QuotedText

/-- Scanning a text finds the fragments of its quotations. -/
theorem quotations_text (quoted : QuotedText) : quotations quoted.text = quoted.fragments := by
  obtain ⟨quotes, rest, unopened, unclosed, unquoted⟩ := quoted
  simp only [text, fragments]
  induction quotes with
  | nil => exact quotations_of_unquoted unquoted
  | cons quote quotes ih =>
      obtain ⟨piece, fragment⟩ := quote
      have others : quotations (written id quotes ++ rest) =
          (quotes.map Prod.snd).filter (!·.isEmpty) :=
        ih (fun other inside => unopened other (List.mem_cons_of_mem _ inside))
          (fun other inside => unclosed other (List.mem_cons_of_mem _ inside))
      have first := quotationsFrom_quotation (unopened _ List.mem_cons_self)
        (unclosed _ List.mem_cons_self) (written id quotes ++ rest)
      have split : (((piece, fragment) :: quotes).map Prod.snd).filter (!·.isEmpty) =
          [fragment].filter (!·.isEmpty) ++ (quotes.map Prod.snd).filter (!·.isEmpty) := by
        rw [← List.filter_append]
        rfl
      rw [split, ← others, written_cons, List.append_assoc, List.cons_append, List.append_assoc,
        List.cons_append]
      exact first

/-- The fragments that were put between quotes are found in order, the empty ones left out. The
pieces around them may hold closing quotes and the fragments opening ones, and a quotation may be
begun at the end that is not ended. -/
theorem quotations_written_append {quotes : List (Text × Text)} {last : Text}
    (unopened : ∀ quote ∈ quotes, openQuote ∉ quote.1) (lastUnopened : openQuote ∉ last)
    (unclosed : ∀ quote ∈ quotes, closeQuote ∉ quote.2) :
    quotations (written id quotes ++ last) = (quotes.map Prod.snd).filter (!·.isEmpty) ∧
      ∀ unended, closeQuote ∉ unended →
        quotations (written id quotes ++ last ++ openQuote :: unended) =
          quotations (written id quotes ++ last) := by
  have unquoted : ∀ before behind, last = before ++ openQuote :: behind → closeQuote ∉ behind := by
    rintro before behind rfl
    exact absurd (List.mem_append_right before List.mem_cons_self) lastUnopened
  constructor
  · exact quotations_text ⟨quotes, last, unopened, unclosed, unquoted⟩
  · intro unended stillOpen
    exact quotationsFrom_append_openQuote stillOpen none _

/-- Closing quotes in two of the pieces, an opening one in a fragment, and an empty fragment. -/
def strayQuotes : List (Text × Text) := [("it’s ", "a‘b"), (" or ", ""), ("’ of ", "c")]

theorem quotations_strayQuotes :
    (∀ quote ∈ strayQuotes, openQuote ∉ quote.1) ∧ openQuote ∉ (", d’ " : Text) ∧
      (∀ quote ∈ strayQuotes, closeQuote ∉ quote.2) ∧ closeQuote ∉ ("e‘f" : Text) ∧
      quotations "it’s ‘a‘b’ or ‘’’ of ‘c’, d’ " = ["a‘b", "c"] ∧
      quotations "it’s ‘a‘b’ or ‘’’ of ‘c’, d’ ‘e‘f" = ["a‘b", "c"] := by
  have unopened : ∀ quote ∈ strayQuotes, openQuote ∉ quote.1 := by decide
  have lastUnopened : openQuote ∉ (", d’ " : Text) := by decide
  have unclosed : ∀ quote ∈ strayQuotes, closeQuote ∉ quote.2 := by decide
  have stillOpen : closeQuote ∉ ("e‘f" : Text) := by decide
  obtain ⟨found, unchanged⟩ := quotations_written_append unopened lastUnopened unclosed
  have text : written id strayQuotes ++ ", d’ ".toList = "it’s ‘a‘b’ or ‘’’ of ‘c’, d’ ".toList := by
    decide +kernel
  have longer : written id strayQuotes ++ ", d’ ".toList ++ openQuote :: "e‘f".toList =
      "it’s ‘a‘b’ or ‘’’ of ‘c’, d’ ‘e‘f".toList := by
    decide +kernel
  have both := (unchanged _ stillOpen).trans found
  rw [longer] at both
  rw [text] at found
  exact ⟨unopened, lastUnopened, unclosed, stillOpen, found, both⟩

/-- Every text can be taken apart at its quotations. -/
theorem exists_text_eq (text : Text) : ∃ quoted : QuotedText, quoted.text = text := by
  by_cases opened : openQuote ∈ text
  · obtain ⟨piece, after, opening, unopened⟩ := List.eq_append_cons_of_mem opened
    by_cases closed : closeQuote ∈ after
    · obtain ⟨fragment, behind, closing, unclosed⟩ := List.eq_append_cons_of_mem closed
      have shorter : behind.length < text.length := by
        rw [opening, closing]
        simp only [List.length_append, List.length_cons]
        omega
      obtain ⟨quoted, same⟩ := exists_text_eq behind
      refine ⟨⟨(piece, fragment) :: quoted.quotes, quoted.rest, ?_, ?_, quoted.unquoted⟩, ?_⟩
      · exact List.forall_mem_cons.mpr ⟨unopened, quoted.unopened⟩
      · exact List.forall_mem_cons.mpr ⟨unclosed, quoted.unclosed⟩
      · rw [opening, closing, ← same]
        simp [QuotedText.text, written_cons]
    · refine ⟨⟨[], text, by simp, by simp, ?_⟩, rfl⟩
      rw [opening]
      exact unquoted_of_first unopened closed
  · refine ⟨⟨[], text, by simp, by simp, ?_⟩, rfl⟩
    intro before behind same
    exact absurd (same ▸ List.mem_append_right before List.mem_cons_self) opened
termination_by text.length
decreasing_by exact shorter

end QuotedText

/-- A fragment stands between its quotes. -/
theorem exists_of_mem_quotations {text fragment : Text} (inside : fragment ∈ quotations text) :
    ∃ before behind, text = before ++ openQuote :: (fragment ++ closeQuote :: behind) := by
  obtain ⟨quoted, rfl⟩ := QuotedText.exists_text_eq text
  rw [quoted.quotations_text] at inside
  obtain ⟨⟨⟨piece, _⟩, place, rfl⟩, -⟩ := QuotedText.mem_fragments.mp inside
  obtain ⟨first, second, parts⟩ := List.append_of_mem place
  refine ⟨QuotedText.written id first ++ piece,
    QuotedText.written id second ++ quoted.rest, ?_⟩
  rw [QuotedText.text, parts, QuotedText.written_append, QuotedText.written_cons]
  simp

/-- The segments of a message without the words that announce candidates. -/
def named (segments : List Text) : List Text :=
  if segments.head? = some "candidates are".toList then segments.tail else segments

theorem plainFragment_eq (segments : List Text) :
    plainFragment segments = Text.joinWith ":" (named segments) := by
  cases segments with
  | nil => rfl
  | cons first rest =>
      rw [plainFragment, named, List.head?_cons, List.tail_cons]
      by_cases announced : first = "candidates are".toList
      · rw [if_pos announced, if_pos (congrArg some announced)]
      · rw [if_neg announced, if_neg (fun same => announced (Option.some.inj same))]

theorem named_suffix (segments : List Text) : named segments <:+ segments := by
  unfold named
  split
  · exact List.tail_suffix segments
  · exact List.suffix_refl segments

theorem plainFragment_eq_nil_iff {segments : List Text} (solid : ∀ segment ∈ segments, segment ≠ []) :
    plainFragment segments = [] ↔ named segments = [] := by
  rw [plainFragment_eq]
  cases shape : named segments with
  | nil => simp
  | cons first rest =>
      have filled : first ≠ [] := solid first ((named_suffix segments).mem (shape ▸ List.mem_cons_self))
      have head := Text.head?_joinWith ":" filled rest
      constructor
      · intro empty
        rw [empty, List.head?_nil] at head
        exact absurd (List.head?_eq_none_iff.mp head.symm) filled
      · intro absurdity
        cases absurdity

/-- The code that a message is about is what it quotes, or, if it quotes nothing, all of it. -/
theorem fragments_withMessage {segments : List Text} (solid : ∀ segment ∈ segments, segment ≠ [])
    {quoted : QuotedText} (same : quoted.text = Text.joinWith ": " segments)
    (diagnostic : Diagnostic) :
    (diagnostic.withMessage segments).fragments =
      if quoted.fragments = [] then
        if named segments = [] then [] else [Text.joinWith ":" (named segments)]
      else quoted.fragments := by
  have scanned : quotations (Text.joinWith ": " segments) = quoted.fragments := by
    rw [← same, quoted.quotations_text]
  simp only [withMessage, scanned, List.isEmpty_iff]
  by_cases plain : quoted.fragments = []
  · rw [if_pos plain, if_pos plain]
    by_cases nothing : named segments = []
    · rw [if_pos nothing, (plainFragment_eq_nil_iff solid).mpr nothing]
      rfl
    · have filled : plainFragment segments ≠ [] :=
        fun empty => nothing ((plainFragment_eq_nil_iff solid).mp empty)
      rw [if_neg nothing, ← plainFragment_eq]
      simp [filled]
  · rw [if_neg plain, if_neg plain]

theorem fragments_withMessage_of_not_mem {segments : List Text}
    (unopened : ∀ segment ∈ segments, openQuote ∉ segment) (diagnostic : Diagnostic) :
    (diagnostic.withMessage segments).fragments =
      [plainFragment segments].filter (!·.isEmpty) := by
  have absent : openQuote ∉ Text.joinWith ": " segments := by
    intro inside
    rcases Text.mem_joinWith inside with joint | ⟨segment, listed, within⟩
    · exact absurd joint (by decide)
    · exact unopened segment listed within
  have unquoted : quotations (Text.joinWith ": " segments) = [] := by
    apply quotations_of_unquoted
    intro before behind same
    exact absurd (same ▸ List.mem_append_right before List.mem_cons_self) absent
  simp only [withMessage, unquoted, List.isEmpty_nil, if_pos]

theorem takeColumn_suffix (segments : List Text) : (takeColumn segments).2 <:+ segments := by
  cases segments with
  | nil => exact List.suffix_refl []
  | cons segment rest =>
      rw [takeColumn]
      split
      · exact List.suffix_cons segment rest
      · exact List.suffix_refl _

theorem takeKind_suffix (segments : List Text) : (takeKind segments).2 <:+ segments := by
  cases segments with
  | nil => exact List.suffix_refl []
  | cons segment rest =>
      rw [takeKind]
      split
      · exact List.suffix_cons segment rest
      · exact List.suffix_refl _

/-- A message is entered once, from the last segments of the line; where none is entered, it is as if
it had no segments. -/
theorem located_eq_withMessage (file second : Text) (rest : List Text) :
    ∃ diagnostic parts, parts <:+ second :: rest ∧
      located file second rest = Diagnostic.withMessage diagnostic parts := by
  have behind : rest <:+ second :: rest := List.suffix_cons second rest
  simp only [located]
  split
  · exact ⟨_, rest, behind, rfl⟩
  · split
    · have message := ((takeKind_suffix _).trans (takeColumn_suffix rest)).trans behind
      exact ⟨_, _, message, rfl⟩
    · split
      · exact ⟨{ unclassified with file, inSystemHeader := systemHeaders.isPrefixOf file }, [],
          List.nil_suffix, rfl⟩
      · exact ⟨_, second :: rest, List.suffix_refl _, rfl⟩

theorem ofSegments_eq_withMessage (segments : List Text) :
    ∃ diagnostic parts, parts <:+ segments ∧
      ofSegments segments = Diagnostic.withMessage diagnostic parts := by
  match segments with
  | [] => exact ⟨_, [], List.suffix_refl _, rfl⟩
  | [segment] => exact ⟨_, [segment], List.suffix_refl _, rfl⟩
  | first :: second :: rest =>
      have behind : second :: rest <:+ first :: second :: rest := List.suffix_cons first _
      simp only [ofSegments]
      split
      · exact ⟨_, second :: rest, behind, rfl⟩
      · split
        · exact ⟨unclassified, [], List.nil_suffix, rfl⟩
        · obtain ⟨diagnostic, parts, suffix, same⟩ :=
            located_eq_withMessage (withoutChainWords first) second rest
          exact ⟨diagnostic, parts, suffix.trans behind, same⟩

end CompilerFront.Diagnostic
