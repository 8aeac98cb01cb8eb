import CompilerFront.Simplify.Line
import CompilerFront.Proofs.Diagnostic.Quotation
import CompilerFront.Proofs.Text.Trim

set_option autoImplicit false

/-!
Simplifying the quoted code of a line. The fragments are rewritten one after the other, each for
every place in the line where it stands by then; that rewrites each quotation at its own place as
long as no fragment stands anywhere else.
-/
namespace CompilerFront.Simplify

open CompilerFront.Diagnostic (QuotedText openQuote closeQuote)

/-- A text with its quotations in which the rewriting of each fragment leaves the others and what is
not quoted alone. -/
structure Independent (rewrite : Text → Text) (quoted : QuotedText) : Prop where
  /-- A fragment may hold an opening quote of its own, but not one that is changed. -/
  unopened : ∀ fragment ∈ quoted.fragments, rewrite fragment ≠ fragment → openQuote ∉ fragment
  /-- What is changed stands in quotes only. -/
  outside : ∀ fragment ∈ quoted.fragments, rewrite fragment ≠ fragment →
    (∀ quote ∈ quoted.quotes, ¬ fragment <:+: quote.1) ∧ ¬ fragment <:+: quoted.rest
  /-- A fragment stands neither in those that come later nor in what was written for those before. -/
  inside : quoted.fragments.Pairwise fun earlier later =>
    (rewrite earlier ≠ earlier → earlier ≠ later → ¬ earlier <:+: later) ∧
      (rewrite later ≠ later → ¬ later <:+: rewrite earlier)

/-- What stands in a quotation when some fragments have been rewritten. -/
def rewritten (rewrite : Text → Text) (done : List Text) (fragment : Text) : Text :=
  if done.contains fragment then rewrite fragment else fragment

theorem rewritten_of_mem {rewrite : Text → Text} {done : List Text} {fragment : Text}
    (inside : fragment ∈ done) : rewritten rewrite done fragment = rewrite fragment :=
  if_pos (List.contains_iff_mem.mpr inside)

theorem rewritten_of_not_mem {rewrite : Text → Text} {done : List Text} {fragment : Text}
    (absent : fragment ∉ done) : rewritten rewrite done fragment = fragment :=
  if_neg fun inside => absent (List.contains_iff_mem.mp inside)

theorem rewritten_nil (rewrite : Text → Text) : rewritten rewrite [] = id := by
  funext fragment
  simp [rewritten]

theorem replaceAll_written {pattern rest : Text} {quotes : List (Text × Text)}
    (unopened : openQuote ∉ pattern) (unclosed : closeQuote ∉ pattern)
    (pieces : ∀ quote ∈ quotes, ¬ pattern <:+: quote.1) (behind : ¬ pattern <:+: rest)
    (replacement : Text) (write : Text → Text) :
    Text.replaceAll pattern replacement (QuotedText.written write quotes ++ rest) =
      QuotedText.written (Text.replaceAll pattern replacement ∘ write) quotes ++ rest := by
  induction quotes with
  | nil => exact Text.replaceAll_of_not_infix replacement behind
  | cons quote quotes ih =>
      obtain ⟨piece, fragment⟩ := quote
      obtain ⟨apart, others⟩ := List.forall_mem_cons.mp pieces
      have split (text : Text) (tail : Text) :
          piece ++ openQuote :: (text ++ closeQuote :: tail) ++ rest =
            piece ++ openQuote :: (text ++ closeQuote :: (tail ++ rest)) := by simp
      rw [QuotedText.written_cons, QuotedText.written_cons, split, split,
        Text.replaceAll_append_cons unopened, Text.replaceAll_append_cons unclosed,
        Text.replaceAll_of_not_infix replacement apart, ih others]
      rfl

namespace Independent

variable {rewrite : Text → Text} {quoted : QuotedText}

/-- Of what stands in the quotations, replacing a fragment changes that fragment only. -/
theorem replaceAll_rewritten (independent : Independent rewrite quoted) {done others : List Text}
    {fragment : Text} (parts : quoted.fragments = done ++ fragment :: others)
    (changed : rewrite fragment ≠ fragment) {quote : Text × Text} (place : quote ∈ quoted.quotes) :
    Text.replaceAll fragment (rewrite fragment) (rewritten rewrite done quote.2) =
      rewritten rewrite (done ++ [fragment]) quote.2 := by
  obtain ⟨-, later, beyond⟩ := List.pairwise_append.mp (parts ▸ independent.inside)
  have solid : fragment ≠ [] := by
    have inside : fragment ∈ quoted.fragments := by simp [parts]
    exact (QuotedText.mem_fragments.mp inside).2
  by_cases before : quote.2 ∈ done
  · have apart := (beyond _ before fragment List.mem_cons_self).2 changed
    rw [rewritten_of_mem before, Text.replaceAll_of_not_infix _ apart,
      rewritten_of_mem (List.mem_append_left _ before)]
  · rw [rewritten_of_not_mem before]
    by_cases here : quote.2 = fragment
    · rw [here, Text.replaceAll_self_left solid, rewritten_of_mem (by simp)]
    · have apart : ¬ fragment <:+: quote.2 := by
        by_cases blank : quote.2 = []
        · rw [blank, List.infix_nil]
          exact solid
        · have inside : quote.2 ∈ quoted.fragments :=
            QuotedText.mem_fragments.mpr ⟨⟨quote, place, rfl⟩, blank⟩
          have behind : quote.2 ∈ others := by simpa [parts, before, here] using inside
          exact ((List.pairwise_cons.mp later).1 _ behind).1 changed (Ne.symm here)
      rw [Text.replaceAll_of_not_infix _ apart, rewritten_of_not_mem (by simp [before, here])]

/-- One fragment is rewritten in its own quotations, whatever has been rewritten before. -/
theorem replaceAll_step (independent : Independent rewrite quoted) {done others : List Text}
    {fragment : Text} (parts : quoted.fragments = done ++ fragment :: others) :
    Text.replaceAll fragment (rewrite fragment)
        (QuotedText.written (rewritten rewrite done) quoted.quotes ++ quoted.rest) =
      QuotedText.written (rewritten rewrite (done ++ [fragment])) quoted.quotes ++ quoted.rest := by
  have inside : fragment ∈ quoted.fragments := by simp [parts]
  by_cases same : rewrite fragment = fragment
  · rw [same, Text.replaceAll_self_right]
    congr 1
    refine QuotedText.written_congr fun quote _ => ?_
    by_cases here : quote.2 = fragment
    · simp [rewritten, here, same]
    · simp [rewritten, here]
  · obtain ⟨pieces, behind⟩ := independent.outside _ inside same
    have unclosed : closeQuote ∉ fragment := by
      obtain ⟨⟨quote, place, rfl⟩, -⟩ := QuotedText.mem_fragments.mp inside
      exact quoted.unclosed quote place
    rw [replaceAll_written (independent.unopened _ inside same) unclosed pieces behind]
    congr 1
    exact QuotedText.written_congr fun quote place =>
      independent.replaceAll_rewritten parts same place

/-- Rewriting the fragments one after the other rewrites each quotation at its own place. -/
theorem foldl_replaceAll (independent : Independent rewrite quoted) (empty : rewrite [] = []) :
    quoted.fragments.foldl (fun line fragment =>
        Text.replaceAll fragment (rewrite fragment) line) quoted.text =
      QuotedText.written rewrite quoted.quotes ++ quoted.rest := by
  have run (todo done : List Text) (parts : quoted.fragments = done ++ todo) :
      todo.foldl (fun line fragment => Text.replaceAll fragment (rewrite fragment) line)
          (QuotedText.written (rewritten rewrite done) quoted.quotes ++ quoted.rest) =
        QuotedText.written (rewritten rewrite quoted.fragments) quoted.quotes ++ quoted.rest := by
    induction todo generalizing done with
    | nil => rw [parts, List.append_nil, List.foldl_nil]
    | cons fragment todo ih =>
        rw [List.foldl_cons, independent.replaceAll_step parts]
        exact ih (done ++ [fragment]) (by rw [parts]; simp)
  have whole := run quoted.fragments [] rfl
  rw [rewritten_nil] at whole
  rw [QuotedText.text, whole]
  congr 1
  refine QuotedText.written_congr fun quote place => ?_
  by_cases blank : quote.2 = []
  · simp [rewritten, blank, empty]
  · have inside : quote.2 ∈ quoted.fragments :=
      QuotedText.mem_fragments.mpr ⟨⟨quote, place, rfl⟩, blank⟩
    rw [rewritten_of_mem inside]

end Independent

@[simp] theorem simplifyFragment_one_nil : simplifyFragment 1 [] = [] := by decide +kernel

theorem trimEnd_written (write : Text → Text) (quotes : List (Text × Text)) :
    Text.trimEnd (QuotedText.written write quotes) = QuotedText.written write quotes := by
  rcases quotes.eq_nil_or_concat with rfl | ⟨quotes, quote, rfl⟩
  · rfl
  · have shape : QuotedText.written write (quotes.concat quote) =
        QuotedText.written write quotes ++ (quote.1 ++ openQuote :: write quote.2) ++
          [closeQuote] := by
      rw [List.concat_eq_append, QuotedText.written_append, QuotedText.written_cons]
      simp
    rw [shape]
    exact Text.trimEnd_concat_of_not_isBlank (by decide) _

theorem trimEnd_written_append (write : Text → Text) (quotes : List (Text × Text)) (rest : Text) :
    Text.trimEnd (QuotedText.written write quotes ++ rest) =
      QuotedText.written write quotes ++ Text.trimEnd rest :=
  Text.trimEnd_append_of_trimmed (trimEnd_written write quotes) rest

/-- If the quoted code of a line is independent, then simplifying the line replaces each fragment by
its simplified form, at its own place; nothing else changes but for the blanks at the end. -/
theorem simplifyLine_one_quoted {quoted : QuotedText}
    (reported : (Diagnostic.ofLine quoted.text).fragments = quoted.fragments)
    (independent : Independent (simplifyFragment 1) quoted)
    (kept : simplifyLine 1 (Diagnostic.ofLine quoted.text) quoted.text ≠ []) :
    Text.trimEnd quoted.text =
        QuotedText.written id quoted.quotes ++ Text.trimEnd quoted.rest ∧
      simplifyLine 1 (Diagnostic.ofLine quoted.text) quoted.text =
        QuotedText.written (simplifyFragment 1) quoted.quotes ++ Text.trimEnd quoted.rest := by
  refine ⟨trimEnd_written_append id quoted.quotes quoted.rest, ?_⟩
  have rewrote : quoted.fragments.foldl (simplifyWithin 1) quoted.text =
      QuotedText.written (simplifyFragment 1) quoted.quotes ++ quoted.rest :=
    independent.foldl_replaceAll simplifyFragment_one_nil
  have unfilled : ¬(fillLevel ≤ 1 ∧ lineWidth < (Text.trimEnd
      (quoted.fragments.foldl (simplifyWithin 1) quoted.text)).length) :=
    fun filled => absurd filled.1 (by decide)
  rw [simplifyLine_one, reported, simplifyFragments] at kept ⊢
  simp only [if_neg unfilled] at kept ⊢
  split at kept
  · exact absurd rfl kept
  · rename_i shown
    rw [if_neg shown, rewrote, trimEnd_written_append]

def containerFirst : QuotedText where
  quotes := [("a.cpp:1: error: ", "std::vector<int, std::allocator<int> >"),
    (" has no ", "std::allocator<int>")]
  rest := " "
  unopened := by decide
  unclosed := by decide
  unquoted := by
    intro before behind same
    have absent : openQuote ∉ (" " : Text) := by decide
    rw [same] at absent
    exact absurd (List.mem_append_right before List.mem_cons_self) absent

theorem simplifyLine_one_containerFirst :
    (Diagnostic.ofLine containerFirst.text).fragments = containerFirst.fragments ∧
      Independent (simplifyFragment 1) containerFirst ∧
      simplifyLine 1 (Diagnostic.ofLine containerFirst.text) containerFirst.text ≠ [] ∧
      Text.trimEnd containerFirst.text =
        QuotedText.written id containerFirst.quotes ++ Text.trimEnd containerFirst.rest ∧
      simplifyLine 1 (Diagnostic.ofLine containerFirst.text) containerFirst.text =
        QuotedText.written (simplifyFragment 1) containerFirst.quotes ++
          Text.trimEnd containerFirst.rest := by
  have reported : (Diagnostic.ofLine containerFirst.text).fragments = containerFirst.fragments := by
    decide +kernel
  have independent : Independent (simplifyFragment 1) containerFirst :=
    ⟨by decide +kernel, by decide +kernel, by decide +kernel⟩
  have kept : simplifyLine 1 (Diagnostic.ofLine containerFirst.text) containerFirst.text ≠ [] := by
    decide +kernel
  exact ⟨reported, independent, kept, simplifyLine_one_quoted reported independent kept⟩

def allocatorFirst : QuotedText where
  quotes := [("a.cpp:1: error: no ", "std::allocator<int>"),
    (" in ", "std::vector<int, std::allocator<int> >")]
  rest := []
  unopened := by decide
  unclosed := by decide
  unquoted := by simp

/-- Rewriting the allocator rewrites it in the container too, and the container is not found any
more. -/
theorem simplifyLine_one_allocatorFirst :
    (Diagnostic.ofLine allocatorFirst.text).fragments = allocatorFirst.fragments ∧
      (∀ fragment ∈ allocatorFirst.fragments, fragment <:+: allocatorFirst.text) ∧
      QuotedText.written (simplifyFragment 1) allocatorFirst.quotes =
        "a.cpp:1: error: no ‘allocator<int>’ in ‘vector<int>’" ∧
      simplifyLine 1 (Diagnostic.ofLine allocatorFirst.text) allocatorFirst.text =
        "a.cpp:1: error: no ‘allocator<int>’ in ‘std::vector<int, allocator<int> >’" := by
  decide +kernel

end CompilerFront.Simplify
