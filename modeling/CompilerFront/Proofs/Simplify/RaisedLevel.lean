import CompilerFront.Proofs.Simplify.Fill
import CompilerFront.Proofs.Simplify.HeaderLocations
import CompilerFront.Proofs.Simplify.PlainCode
import CompilerFront.Proofs.Text.Occurrence

set_option autoImplicit false

/-!
What is hidden at a higher level. Where no header is mentioned, the library level differs from the
code level in two things: a line that begins as an error is not shown, and the qualifiers of the
boost libraries are removed. The latter hides a line, or shows it, only if it changes how the line
begins.
-/
namespace CompilerFront.Simplify

/-- Whether nothing is shown of a line: it holds blanks only, or it is one of those that are
dropped. -/
def IsHidden (line : Text) : Prop :=
  Text.trimEnd line = [] ∨ isDropped (Text.trimEnd line) = true

instance : DecidablePred IsHidden := fun line =>
  inferInstanceAs (Decidable (Text.trimEnd line = [] ∨ isDropped (Text.trimEnd line) = true))

/-- Whether a fragment can begin in the front of a text, whatever stands behind the front. -/
def BeginsIn (fragment front : Text) : Prop :=
  ∃ tail ∈ front.tails, tail ≠ [] ∧ (fragment <+: tail ∨ tail <+: fragment)

instance : DecidableRel BeginsIn := fun fragment front =>
  inferInstanceAs (Decidable
    (∃ tail ∈ front.tails, tail ≠ [] ∧ (fragment <+: tail ∨ tail <+: fragment)))

/-- The front of a line that decides whether the line is hidden: it ends with no blank, and it
begins as a dropped line does or in a way in which none of them does. -/
structure Decides (front : Text) : Prop where
  ne_nil : front ≠ []
  trimEnd_eq : Text.trimEnd front = front
  decided : isDropped front = true ∨
    ∀ start ∈ droppedStarts, ¬ Text.trimStart front <+: start

/-- Lines of which the qualifiers of the boost libraries do not decide whether they are hidden, by
the fragments that are still to be simplified. -/
inductive Settled : List Text → Text → Prop
  | done (line : Text) : Settled [] line
  /-- No qualifier is left in the next fragment. -/
  | unqualified (fragment : Text) (fragments : List Text) (line : Text) :
      ¬ "boost::".toList <:+: simplifyFragment codeLevel fragment →
      Settled fragments (simplifyWithin codeLevel line fragment) →
      Settled (fragment :: fragments) line
  /-- A front decides, in which no fragment begins but those that stay as they are. -/
  | fronted (front rest : Text) (fragments : List Text) : Decides front →
      (∀ fragment ∈ fragments, BeginsIn fragment front →
        simplifyFragment codeLevel fragment = fragment ∧
          simplifyFragment libraryLevel fragment = fragment) →
      Settled fragments (front ++ rest)
  /-- The whole line is one fragment, and a front of what the code level leaves of it decides, in
  which no qualifier begins. -/
  | whole (left fragment right front rest : Text) : Text.isAllBlank left = true →
      Text.isAllBlank right = true → fragment ≠ [] → Text.trim fragment = fragment →
      simplifyFragment codeLevel fragment = front ++ rest → Decides front →
      ¬ BeginsIn "boost::" front → Settled [fragment] (left ++ (fragment ++ right))

section

variable {front fragment : Text} {fragments : List Text} {level : Nat}

/-- Nothing is shown of a line exactly if it is hidden once its fragments are simplified. -/
theorem simplifyFragments_eq_nil_iff (level : Nat) (fragments : List Text) (line : Text) :
    simplifyFragments level fragments line = [] ↔
      IsHidden (fragments.foldl (simplifyWithin level) line) := by
  rw [simplifyFragments, IsHidden]
  by_cases dropped : isDropped (Text.trimEnd (fragments.foldl (simplifyWithin level) line)) = true
  · simp only [dropped, if_true, or_true]
  · rw [if_neg dropped, or_iff_left dropped]
    split
    · rename_i long
      have solid : Text.trimEnd (fragments.foldl (simplifyWithin level) line) ≠ [] := by
        intro empty
        rw [empty] at long
        exact absurd long.2 (Nat.not_lt_zero lineWidth)
      have trimmed := Text.trimEnd_eq_self_iff.mpr
        (Text.getLast?_trimEnd (fragments.foldl (simplifyWithin level) line))
      rw [← trimmed] at solid
      exact iff_of_false (fillLine_ne_nil solid) (trimmed ▸ solid)
    · rfl

theorem simplifyWithin_of_le (high : libraryLevel ≤ level) :
    simplifyWithin level = simplifyWithin libraryLevel := by
  funext line fragment
  rw [simplifyWithin, simplifyWithin, simplifyFragment_of_le fragment high,
    simplifyFragment_of_le fragment (Nat.le_refl _)]

theorem simplifyFragments_eq_nil_of_le (high : libraryLevel ≤ level) (line : Text) :
    simplifyFragments level fragments line = [] ↔
      simplifyFragments libraryLevel fragments line = [] := by
  rw [simplifyFragments_eq_nil_iff, simplifyFragments_eq_nil_iff, simplifyWithin_of_le high]

theorem isDropped_iff {line : Text} :
    isDropped line = true ↔ ∃ start ∈ droppedStarts, start <+: Text.trimStart line := by
  simp only [isDropped, List.any_eq_true, List.isPrefixOf_iff_prefix]

/-- What the front decides holds whatever follows. -/
theorem Decides.isHidden_append (decides : Decides front) (rest : Text) :
    IsHidden (front ++ rest) ↔ isDropped front = true := by
  have started : Text.trimStart front ≠ [] := by
    intro blank
    have trimmed := decides.trimEnd_eq
    obtain ⟨blanks, same, allBlank⟩ := Text.blanks_append_trimStart front
    rw [blank, List.append_nil] at same
    rw [Text.trimEnd_of_isAllBlank (same ▸ allBlank)] at trimmed
    exact decides.ne_nil trimmed.symm
  have solid : front ++ Text.trimEnd rest ≠ [] :=
    List.append_ne_nil_of_left_ne_nil decides.ne_nil _
  rw [IsHidden, Text.trimEnd_append_of_trimmed decides.trimEnd_eq, or_iff_right solid,
    isDropped_iff, Text.trimStart_append started]
  constructor
  · rintro ⟨start, listed, begun⟩
    rcases List.prefix_or_prefix_of_prefix begun (List.prefix_append _ _) with inFront | goesOn
    · exact isDropped_iff.mpr ⟨start, listed, inFront⟩
    · exact decides.decided.resolve_right fun apart => apart start listed goesOn
  · intro dropped
    obtain ⟨start, listed, begun⟩ := isDropped_iff.mp dropped
    exact ⟨start, listed, begun.trans (List.prefix_append _ _)⟩

/-- Fragments that do not begin in the front leave it at the front. -/
theorem exists_foldl_append (kept : ∀ fragment ∈ fragments, BeginsIn fragment front →
      simplifyFragment level fragment = fragment) (rest : Text) :
    ∃ simplified, fragments.foldl (simplifyWithin level) (front ++ rest) = front ++ simplified := by
  induction fragments generalizing rest with
  | nil => exact ⟨rest, rfl⟩
  | cons fragment fragments ih =>
      obtain ⟨first, others⟩ := List.forall_mem_cons.mp kept
      rw [List.foldl_cons]
      by_cases begins : BeginsIn fragment front
      · rw [simplifyWithin, first begins, Text.replaceAll_self_right]
        exact ih others rest
      · have apart : Text.Apart fragment front rest :=
          Text.apart_of_unrelated (fun tail inside solid overlap =>
            begins ⟨tail, inside, solid, overlap⟩) rest
        rw [simplifyWithin, Text.replaceAll_append_of_apart apart]
        exact ih others _

/-- A line that is one fragment is simplified as the fragment is. -/
theorem simplifyWithin_whole {left right : Text} (leftBlank : Text.isAllBlank left = true)
    (rightBlank : Text.isAllBlank right = true) (solid : fragment ≠ [])
    (trimmed : Text.trim fragment = fragment) :
    simplifyWithin level (left ++ (fragment ++ right)) fragment =
      left ++ (simplifyFragment level fragment ++ right) := by
  have apart {blanks : Text} (blank : Text.isAllBlank blanks = true) (text : Text) :
      Text.Apart fragment blanks text := by
    refine Text.apart_of_head? solid (fun c inside head => ?_) text
    have isBlank := List.all_eq_true.mp blank c inside
    rw [(Text.trim_eq_self_iff.mp trimmed).1 c head] at isBlank
    cases isBlank
  have behind : ¬ fragment <:+: right := by
    have whole := Text.infix_append_of_apart (apart rightBlank [])
    rw [List.append_nil, List.infix_nil] at whole
    exact fun within => solid (whole.mp within)
  rw [simplifyWithin, Text.replaceAll_append_of_apart (apart leftBlank _),
    Text.replaceAll_self_append solid, Text.replaceAll_of_not_infix _ behind]

theorem isHidden_blanks {left right : Text} (leftBlank : Text.isAllBlank left = true)
    (rightBlank : Text.isAllBlank right = true) (text : Text) :
    IsHidden (left ++ (text ++ right)) ↔ IsHidden text := by
  rw [IsHidden, IsHidden, ← List.append_assoc, Text.trimEnd_append_of_isAllBlank rightBlank,
    Text.trimEnd_append]
  cases shape : Text.trimEnd text with
  | nil =>
      rw [List.isEmpty_nil, if_pos rfl, Text.trimEnd_of_isAllBlank leftBlank]
  | cons c rest =>
      have dropped : isDropped (left ++ c :: rest) = isDropped (c :: rest) := by
        rw [isDropped, isDropped, Text.trimStart_append_of_isAllBlank leftBlank]
      rw [List.isEmpty_cons, if_neg Bool.false_ne_true, dropped]
      simp

/-- Fragments without a qualifier of the boost libraries look the same at both levels. -/
theorem simplifyFragment_of_unqualified
    (unqualified : ¬ "boost::".toList <:+: simplifyFragment codeLevel fragment) :
    simplifyFragment libraryLevel fragment = simplifyFragment codeLevel fragment := by
  have standard : simplifyFragment codeLevel fragment =
      shortenStandardNames (carryOutBindings fragment) := simplifyFragment_one fragment
  rw [standard] at unqualified
  have detail : ¬ "boost::detail::".toList <:+: shortenStandardNames (carryOutBindings fragment) :=
    fun inside => unqualified (List.IsInfix.trans (by decide) inside)
  rw [simplifyFragment_of_le fragment (Nat.le_refl _), standard, removeBoostQualifiers,
    Text.removeAll, Text.removeAll, Text.replaceAll_of_not_infix [] detail,
    Text.replaceAll_of_not_infix [] unqualified]

theorem removeBoostQualifiers_append (unbegun : ¬ BeginsIn "boost::" front) (rest : Text) :
    removeBoostQualifiers (front ++ rest) = front ++ removeBoostQualifiers rest := by
  have apart (text : Text) : Text.Apart "boost::" front text :=
    Text.apart_of_unrelated (fun tail inside solid overlap =>
      unbegun ⟨tail, inside, solid, overlap⟩) text
  have longer (text : Text) : Text.Apart "boost::detail::" front text :=
    (apart text).of_start (by decide)
  rw [removeBoostQualifiers, Text.removeAll, Text.removeAll,
    Text.replaceAll_append_of_apart (longer rest), Text.replaceAll_append_of_apart (apart _),
    removeBoostQualifiers, Text.removeAll, Text.removeAll]

/-- Whether a settled line is hidden does not change between the levels. -/
theorem Settled.isHidden_foldl {line : Text} (settled : Settled fragments line) :
    IsHidden (fragments.foldl (simplifyWithin libraryLevel) line) ↔
      IsHidden (fragments.foldl (simplifyWithin codeLevel) line) := by
  induction settled with
  | done line => rw [List.foldl_nil, List.foldl_nil]
  | unqualified fragment fragments line absent _ ih =>
      have written : simplifyWithin libraryLevel line fragment =
          simplifyWithin codeLevel line fragment := by
        rw [simplifyWithin, simplifyWithin, simplifyFragment_of_unqualified absent]
      rw [List.foldl_cons, List.foldl_cons, written]
      exact ih
  | fronted front rest fragments decides kept =>
      obtain ⟨library, high⟩ := exists_foldl_append
        (fun fragment listed begins => (kept fragment listed begins).2) rest
      obtain ⟨code, low⟩ := exists_foldl_append
        (fun fragment listed begins => (kept fragment listed begins).1) rest
      rw [high, low, decides.isHidden_append, decides.isHidden_append]
  | whole left fragment right front rest leftBlank rightBlank solid trimmed code decides unbegun =>
      have standard : simplifyFragment codeLevel fragment =
          shortenStandardNames (carryOutBindings fragment) := simplifyFragment_one fragment
      have high : simplifyFragment libraryLevel fragment = front ++ removeBoostQualifiers rest := by
        rw [simplifyFragment_of_le fragment (Nat.le_refl _), ← standard, code,
          removeBoostQualifiers_append unbegun]
      simp only [List.foldl_cons, List.foldl_nil]
      rw [simplifyWithin_whole leftBlank rightBlank solid trimmed,
        simplifyWithin_whole leftBlank rightBlank solid trimmed,
        isHidden_blanks leftBlank rightBlank, isHidden_blanks leftBlank rightBlank, high, code,
        decides.isHidden_append, decides.isHidden_append]

/-- A line is settled if no fragment of it holds a qualifier of the boost libraries. -/
theorem settled_of_unqualified (line : Text)
    (unqualified : ∀ fragment ∈ fragments,
      ¬ "boost::".toList <:+: simplifyFragment codeLevel fragment) :
    Settled fragments line := by
  induction fragments generalizing line with
  | nil => exact .done line
  | cons fragment fragments ih =>
      obtain ⟨first, others⟩ := List.forall_mem_cons.mp unqualified
      exact .unqualified fragment fragments line first (ih _ others)

/-- The first quotation mark decides: no line that is dropped begins with one. -/
theorem decides_openQuote (before : Text) : Decides (before ++ [Diagnostic.openQuote]) := by
  have solid : Text.isBlank Diagnostic.openQuote = false := by decide
  refine ⟨by simp, Text.trimEnd_concat_of_not_isBlank solid before, .inr ?_⟩
  intro start listed begun
  have kept : Diagnostic.openQuote ∈ Text.trimStart (before ++ [Diagnostic.openQuote]) :=
    Text.mem_trimStart (List.mem_append_right before List.mem_cons_self) solid
  have absent : ∀ start ∈ droppedStarts, Diagnostic.openQuote ∉ start := by decide
  exact absent start listed (begun.mem kept)

/-- A line with quotations is settled if the fragments that are changed stand nowhere in front of
them. -/
theorem settled_of_quoted (before rest : Text)
    (kept : ∀ fragment ∈ fragments, BeginsIn fragment (before ++ [Diagnostic.openQuote]) →
      simplifyFragment codeLevel fragment = fragment ∧
        simplifyFragment libraryLevel fragment = fragment) :
    Settled fragments (before ++ Diagnostic.openQuote :: rest) := by
  have settled := Settled.fronted _ rest fragments (decides_openQuote before) kept
  rwa [List.append_assoc] at settled

/-- A line that mentions no header is hidden at a higher level if it begins as an error without a
place, or by its fragments. Hence a higher level hides no further line if no qualifier of the boost
libraries is left in the fragments, or if the line is settled otherwise. -/
theorem simplifyLine_eq_nil_iff_codeLevel {line : Text} (headerless : ¬ systemHeaders <:+: line)
    (high : libraryLevel ≤ level) :
    (simplifyLine level (Diagnostic.ofLine line) line = [] ↔
      "error: ".toList <+: line ∨
        IsHidden ((Diagnostic.ofLine line).fragments.foldl (simplifyWithin libraryLevel) line)) ∧
    (simplifyLine codeLevel (Diagnostic.ofLine line) line = [] ↔
      IsHidden ((Diagnostic.ofLine line).fragments.foldl (simplifyWithin codeLevel) line)) ∧
    ((∀ fragment ∈ (Diagnostic.ofLine line).fragments,
        ¬ "boost::".toList <:+: simplifyFragment codeLevel fragment) ∨
        Settled (Diagnostic.ofLine line).fragments line →
      (simplifyLine level (Diagnostic.ofLine line) line = [] ↔
        "error: ".toList <+: line ∨
          simplifyLine codeLevel (Diagnostic.ofLine line) line = [])) := by
  have raised : simplifyLine level (Diagnostic.ofLine line) line = [] ↔
      "error: ".toList <+: line ∨
        IsHidden ((Diagnostic.ofLine line).fragments.foldl (simplifyWithin libraryLevel) line) := by
    rw [simplifyLine_of_le high, removeHeaderLocations_of_absent headerless,
      ← simplifyFragments_eq_nil_iff libraryLevel, ← List.isPrefixOf_iff_prefix]
    by_cases error : ("error: " : Text).isPrefixOf line = true
    · rw [if_pos error]
      exact iff_of_true rfl (.inl error)
    · rw [if_neg error, or_iff_right error]
      exact simplifyFragments_eq_nil_of_le high line
  have low : simplifyLine codeLevel (Diagnostic.ofLine line) line = [] ↔
      IsHidden ((Diagnostic.ofLine line).fragments.foldl (simplifyWithin codeLevel) line) :=
    simplifyFragments_eq_nil_iff codeLevel (Diagnostic.ofLine line).fragments line
  refine ⟨raised, low, fun condition => ?_⟩
  have settled := condition.elim (settled_of_unqualified line) id
  rw [raised, low, settled.isHidden_foldl]

end

def boostError : Text := "main.cpp:3:1: error: no type ‘boost::shared_ptr<T>’ in ‘T’"

def listError : Text := "main.cpp:3:1: error: no ‘std::list<T, std::allocator<T> >’ here"

theorem simplifyLine_boostError :
    (¬ systemHeaders <:+: boostError ∧ libraryLevel ≤ 3 ∧
      Settled (Diagnostic.ofLine boostError).fragments boostError ∧
      (simplifyLine 3 (Diagnostic.ofLine boostError) boostError = [] ↔
        "error: ".toList <+: boostError ∨
          simplifyLine codeLevel (Diagnostic.ofLine boostError) boostError = [])) ∧
    ¬ systemHeaders <:+: listError ∧
      (∀ fragment ∈ (Diagnostic.ofLine listError).fragments,
        ¬ "boost::".toList <:+: simplifyFragment codeLevel fragment) ∧
      (simplifyLine 3 (Diagnostic.ofLine listError) listError = [] ↔
        "error: ".toList <+: listError ∨
          simplifyLine codeLevel (Diagnostic.ofLine listError) listError = []) := by
  have headerless : ¬ systemHeaders <:+: boostError := by decide +kernel
  have high : libraryLevel ≤ 3 := by decide
  have fragments : (Diagnostic.ofLine boostError).fragments =
      ["boost::shared_ptr<T>".toList, "T".toList] := by decide +kernel
  have settled : Settled (Diagnostic.ofLine boostError).fragments boostError := by
    have quoted : boostError = "main.cpp:3:1: error: no type ".toList ++
        Diagnostic.openQuote :: "boost::shared_ptr<T>’ in ‘T’".toList := by decide +kernel
    rw [fragments, quoted]
    exact settled_of_quoted _ _ (by decide +kernel)
  have headerlessList : ¬ systemHeaders <:+: listError := by decide +kernel
  have unqualified : ∀ fragment ∈ (Diagnostic.ofLine listError).fragments,
      ¬ "boost::".toList <:+: simplifyFragment codeLevel fragment := by decide +kernel
  obtain ⟨-, -, boost⟩ := simplifyLine_eq_nil_iff_codeLevel headerless high
  obtain ⟨-, -, list⟩ := simplifyLine_eq_nil_iff_codeLevel headerlessList high
  exact ⟨⟨headerless, high, settled, boost (.inr settled)⟩, headerlessList, unqualified,
    list (.inl unqualified)⟩

/-- An error without a place is hidden although it comes from no header, and so is a line that is
not dropped as long as it keeps its qualifier. -/
theorem simplifyLine_placeless :
    ¬ systemHeaders <:+: "error: no match".toList ∧
      simplifyLine codeLevel (Diagnostic.ofLine "error: no match") "error: no match" =
        "error: no match" ∧
      simplifyLine libraryLevel (Diagnostic.ofLine "error: no match") "error: no match" = [] ∧
      ¬ systemHeaders <:+: "boost::from x".toList ∧
      simplifyLine codeLevel (Diagnostic.ofLine "boost::from x") "boost::from x" =
        "boost::from x" ∧
      simplifyLine libraryLevel (Diagnostic.ofLine "boost::from x") "boost::from x" = [] := by
  decide +kernel

end CompilerFront.Simplify
