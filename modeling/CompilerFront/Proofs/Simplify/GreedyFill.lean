import CompilerFront.Proofs.Simplify.RaisedLevel

set_option autoImplicit false

namespace CompilerFront.Simplify

/-- One line of a filled text: what it begins with, and the words on it, of which there is at least
one. -/
structure FilledLine where
  lead : Text
  first : Text
  others : List Text

namespace FilledLine

def words (line : FilledLine) : List Text := line.first :: line.others

/-- The words stand one space apart. -/
def text (line : FilledLine) : Text := line.lead ++ Text.joinWith " " line.words

def take (line : FilledLine) (word : Text) : FilledLine :=
  { line with others := line.others ++ [word] }

theorem text_single (lead word : Text) : (FilledLine.mk lead word []).text = lead ++ word := by
  simp [text, words]

theorem text_take (line : FilledLine) (word : Text) :
    (line.take word).text = line.text ++ ' ' :: word := by
  have started : line.words ≠ [] := List.cons_ne_nil _ _
  have joined : Text.joinWith " " (line.take word).words =
      Text.joinWith " " line.words ++ " ".toList ++ word := by
    have more : (line.take word).words = line.words ++ [word] := rfl
    rw [more, Text.joinWith_append " " started (List.cons_ne_nil word []),
      Text.joinWith_singleton]
  rw [text, joined, text]
  simp [take]

end FilledLine

/-- Some words on lines of a given width. The first line has a lead of its own and the others begin
with four spaces. No line is too long unless it holds a single word, and no line could have taken
the first word of the next one. -/
structure IsGreedyFill (width : Nat) (lead : Text) (words : List Text) (lines : List FilledLine) :
    Prop where
  words_eq : lines.flatMap FilledLine.words = words
  lead_first : ∀ line ∈ lines.head?, line.lead = lead
  lead_further : ∀ line ∈ lines.tail, line.lead = List.replicate 4 ' '
  fits : ∀ line ∈ lines, line.text.length ≤ width ∨ line.others = []
  full : lines.IsChain fun line next => width < line.text.length + 1 + next.first.length

def fillLines (width : Nat) : FilledLine → List Text → List FilledLine
  | line, [] => [line]
  | line, word :: rest =>
    if width < line.text.length + 1 + word.length then
      line :: fillLines width ⟨indentation, word, []⟩ rest
    else fillLines width (line.take word) rest

theorem fillFrom_eq_map (width : Nat) (line : FilledLine) (rest : List Text) :
    fillFrom width line.text rest = (fillLines width line rest).map FilledLine.text := by
  induction rest generalizing line with
  | nil => rfl
  | cons word rest ih =>
      by_cases full : width < line.text.length + 1 + word.length
      · rw [fillFrom_of_lt rest full, fillLines, if_pos full, List.map_cons, ← ih,
          FilledLine.text_single]
      · rw [fillFrom_of_le rest (Nat.not_lt.mp full), fillLines, if_neg full, ← ih,
          FilledLine.text_take]

/-- The lines from one on are a greedy fill if that line is none that is too long for its words. -/
theorem isGreedyFill_fillLines {width : Nat} (line : FilledLine)
    (fits : line.text.length ≤ width ∨ line.others = []) (rest : List Text) :
    IsGreedyFill width line.lead (line.words ++ rest) (fillLines width line rest) := by
  induction rest generalizing line with
  | nil =>
      refine ⟨by simp [fillLines], by simp [fillLines], by simp [fillLines], ?_,
        by simp [fillLines]⟩
      simpa [fillLines] using fits
  | cons word rest ih =>
      by_cases full : width < line.text.length + 1 + word.length
      · have later := ih ⟨indentation, word, []⟩ (.inr rfl)
        rw [fillLines, if_pos full]
        obtain ⟨next, further, shape⟩ :
            ∃ next further, fillLines width ⟨indentation, word, []⟩ rest = next :: further := by
          refine List.exists_cons_of_ne_nil fun empty => ?_
          have words := later.words_eq
          rw [empty] at words
          cases words
        rw [shape] at later ⊢
        -- The next line begins with the word that did not fit: that is why this one is full.
        have same : next.first = word := by
          have words := later.words_eq
          rw [List.flatMap_cons, FilledLine.words, FilledLine.words] at words
          exact (List.cons.inj words).1
        refine ⟨?_, by simp, ?_, ?_, ?_⟩
        · rw [List.flatMap_cons, later.words_eq]
          rfl
        · intro other inside
          rcases List.mem_cons.mp inside with rfl | deeper
          · exact later.lead_first _ rfl
          · exact later.lead_further other deeper
        · exact List.forall_mem_cons.mpr ⟨fits, later.fits⟩
        · exact List.isChain_cons_cons.mpr ⟨by rwa [same], later.full⟩
      · have taken : (line.take word).text.length ≤ width := by
          rw [FilledLine.text_take, List.length_append, List.length_cons]
          omega
        rw [fillLines, if_neg full]
        have later := ih (line.take word) (.inl taken)
        have words : (line.take word).words ++ rest = line.words ++ word :: rest := by
          simp [FilledLine.take, FilledLine.words]
        rwa [words] at later

/-- The pieces of a text between its blanks, read from the right. -/
theorem exists_splitOnP_foldr_wordStep (text : Text) :
    ∃ pieces, text.splitOnP Text.isBlank = (text.foldr Text.wordStep ([], [])).1 :: pieces ∧
      (text.foldr Text.wordStep ([], [])).2 = pieces.filter (!·.isEmpty) := by
  induction text with
  | nil => exact ⟨[], rfl, rfl⟩
  | cons c rest ih =>
      obtain ⟨pieces, cut, read⟩ := ih
      rw [List.splitOnP_cons_eq_if_modifyHead, List.foldr_cons, Text.wordStep, cut, read]
      cases blank : Text.isBlank c with
      | true =>
          refine ⟨(rest.foldr Text.wordStep ([], [])).1 :: pieces, by simp, ?_⟩
          cases word : (rest.foldr Text.wordStep ([], [])).1 <;> simp
      | false => exact ⟨pieces, by simp, by simp⟩

/-- The words of a text are what stands between its blanks. -/
theorem words_eq_filter_splitOnP (text : Text) :
    Text.words text = (text.splitOnP Text.isBlank).filter (!·.isEmpty) := by
  obtain ⟨pieces, cut, read⟩ := exists_splitOnP_foldr_wordStep text
  rw [Text.words, cut, read]
  cases word : (text.foldr Text.wordStep ([], [])).1 <;> simp

theorem not_isBlank_of_mem_splitOnP {text piece : Text}
    (listed : piece ∈ text.splitOnP Text.isBlank) : ∀ c ∈ piece, Text.isBlank c = false := by
  induction text generalizing piece with
  | nil =>
      rw [List.splitOnP_nil, List.mem_singleton] at listed
      simp [listed]
  | cons d rest ih =>
      obtain ⟨first, others, shape⟩ :=
        List.exists_cons_of_ne_nil (List.splitOnP_ne_nil Text.isBlank rest)
      rw [List.splitOnP_cons_eq_if_modifyHead, shape] at listed
      rw [shape] at ih
      cases blank : Text.isBlank d with
      | true =>
          rw [if_pos blank] at listed
          rcases List.mem_cons.mp listed with rfl | later
          · simp
          · exact ih later
      | false =>
          rw [blank, if_neg Bool.false_ne_true, List.modifyHead_cons] at listed
          rcases List.mem_cons.mp listed with rfl | later
          · exact List.forall_mem_cons.mpr ⟨blank, ih List.mem_cons_self⟩
          · exact ih (List.mem_cons_of_mem first later)

theorem solid_of_mem_words {text word : Text} (listed : word ∈ Text.words text) :
    word ≠ [] ∧ ∀ c ∈ word, Text.isBlank c = false := by
  rw [words_eq_filter_splitOnP, List.mem_filter] at listed
  exact ⟨by simpa using listed.2, not_isBlank_of_mem_splitOnP listed.1⟩

theorem newline_not_mem_text {line : FilledLine} (lead : '\n' ∉ line.lead)
    (solid : ∀ word ∈ line.words, ∀ c ∈ word, Text.isBlank c = false) : '\n' ∉ line.text := by
  intro inside
  rcases List.mem_append.mp inside with front | behind
  · exact lead front
  · rcases Text.mem_joinWith behind with between | ⟨word, listed, within⟩
    · exact absurd between (by decide)
    · exact absurd (solid word listed _ within) (by decide)

/-- No line begins with a line feed: the first one is not indented and the others begin with
spaces. -/
theorem IsGreedyFill.newline_not_mem_lead {width : Nat} {words : List Text}
    {lines : List FilledLine} (greedy : IsGreedyFill width [] words lines) :
    ∀ line ∈ lines, '\n' ∉ line.lead := by
  intro line listed
  cases lines with
  | nil => cases listed
  | cons first further =>
      rcases List.mem_cons.mp listed with rfl | later
      · rw [greedy.lead_first line rfl]
        exact List.not_mem_nil
      · rw [greedy.lead_further line later]
        decide

/-- A filled line is cut at its line feeds into the lines of a greedy fill. -/
theorem splitOn_fillLine {text : Text} (shown : Text.words text ≠ []) :
    ∃ lines, (fillLine text).splitOn '\n' = lines.map FilledLine.text ∧
      IsGreedyFill lineWidth [] (Text.words text) lines := by
  obtain ⟨word, rest, shape⟩ := List.exists_cons_of_ne_nil shown
  have greedy : IsGreedyFill lineWidth [] (Text.words text)
      (fillLines lineWidth ⟨[], word, []⟩ rest) := by
    rw [shape]
    exact isGreedyFill_fillLines ⟨[], word, []⟩ (.inr rfl) rest
  have lines : fillLine text =
      Text.joinWith "\n" ((fillLines lineWidth ⟨[], word, []⟩ rest).map FilledLine.text) := by
    rw [fillLine, shape, ← fillFrom_eq_map, FilledLine.text_single]
    rfl
  refine ⟨_, ?_, greedy⟩
  rw [lines]
  refine List.splitOn_intercalate '\n' ?_ ?_
  · intro part listed
    obtain ⟨line, isLine, rfl⟩ := List.mem_map.mp listed
    refine newline_not_mem_text (greedy.newline_not_mem_lead line isLine) fun other inside => ?_
    have isWord : other ∈ Text.words text := by
      rw [← greedy.words_eq]
      exact List.mem_flatMap.mpr ⟨line, isLine, inside⟩
    exact (solid_of_mem_words isWord).2
  · rw [← fillFrom_eq_map]
    exact fillFrom_ne_nil lineWidth _ rest

/-- From the fill level on a line is what it is at the library level, filled if it is too long. -/
theorem simplifyLine_eq_fillLine {level : Nat} (high : fillLevel ≤ level) (diagnostic : Diagnostic)
    (line : Text) :
    simplifyLine level diagnostic line =
      if lineWidth < (simplifyLine libraryLevel diagnostic line).length then
        fillLine (simplifyLine libraryLevel diagnostic line)
      else simplifyLine libraryLevel diagnostic line := by
  have hidden : libraryLevel ≤ level := Nat.le_trans (by decide) high
  have unfilled : ¬ fillLevel ≤ libraryLevel := by decide
  rw [simplifyLine_of_le hidden, simplifyLine_of_le (Nat.le_refl _)]
  by_cases error : ("error: " : Text).isPrefixOf (removeHeaderLocations line) = true
  · rw [if_pos error, if_pos error]
    exact (if_neg (Nat.not_lt_zero lineWidth)).symm
  · rw [if_neg error, if_neg error, simplifyFragments, simplifyFragments,
      simplifyWithin_of_le hidden]
    simp only [high, unfilled, true_and, false_and, if_false]
    split
    · rfl
    · rfl

/-- Below the fill level a line is shown without blanks at its end. -/
theorem trimEnd_simplifyLine_libraryLevel (diagnostic : Diagnostic) (line : Text) :
    Text.trimEnd (simplifyLine libraryLevel diagnostic line) =
      simplifyLine libraryLevel diagnostic line := by
  have unfilled : ¬ fillLevel ≤ libraryLevel := by decide
  rw [simplifyLine_of_le (Nat.le_refl _)]
  split
  · rfl
  · rw [simplifyFragments]
    simp only [unfilled, false_and, if_false]
    split
    · rfl
    · exact Text.trimEnd_eq_self_iff.mpr (Text.getLast?_trimEnd _)

/-- From level 3 on a line is shown as at level 2 if it has at most 72 characters then. A longer one
is filled greedily with its words. -/
theorem simplifyLine_filled {level : Nat} (high : 3 ≤ level) (diagnostic : Diagnostic)
    (line : Text) :
    ((simplifyLine 2 diagnostic line).length ≤ 72 →
        simplifyLine level diagnostic line = simplifyLine 2 diagnostic line) ∧
      (72 < (simplifyLine 2 diagnostic line).length →
        ∃ lines,
          (simplifyLine level diagnostic line).splitOn '\n' = lines.map FilledLine.text ∧
            IsGreedyFill 72 []
              (((simplifyLine 2 diagnostic line).splitOnP Text.isBlank).filter (!·.isEmpty))
              lines) := by
  have decided := simplifyLine_eq_fillLine high diagnostic line
  refine ⟨fun short => decided.trans (if_neg (Nat.not_lt.mpr short)), fun long => ?_⟩
  have filled : simplifyLine level diagnostic line = fillLine (simplifyLine 2 diagnostic line) :=
    decided.trans (if_pos long)
  have trimmed : Text.trimEnd (simplifyLine 2 diagnostic line) = simplifyLine 2 diagnostic line :=
    trimEnd_simplifyLine_libraryLevel diagnostic line
  have solid : Text.trimEnd (simplifyLine 2 diagnostic line) ≠ [] := by
    rw [trimmed]
    exact List.ne_nil_of_length_pos (Nat.lt_trans (by decide) long)
  rw [filled, ← words_eq_filter_splitOnP]
  exact splitOn_fillLine (words_ne_nil solid)

def longError : Text :=
  "main.cpp:12:5: error: no matching function for call to ‘push(std::T&)’ in the template here"

theorem simplifyLine_longError :
    3 ≤ 4 ∧ 72 < (simplifyLine 2 (Diagnostic.ofLine longError) longError).length ∧
      (∃ lines,
        (simplifyLine 4 (Diagnostic.ofLine longError) longError).splitOn '\n' =
            lines.map FilledLine.text ∧
          IsGreedyFill 72 []
            (((simplifyLine 2 (Diagnostic.ofLine longError) longError).splitOnP
              Text.isBlank).filter (!·.isEmpty)) lines) ∧
      (simplifyLine 2 (Diagnostic.ofLine "x.cpp:3:1:   error: short")
          "x.cpp:3:1:   error: short").length ≤ 72 ∧
      simplifyLine 4 (Diagnostic.ofLine "x.cpp:3:1:   error: short") "x.cpp:3:1:   error: short" =
        simplifyLine 2 (Diagnostic.ofLine "x.cpp:3:1:   error: short")
          "x.cpp:3:1:   error: short" := by
  have high : 3 ≤ 4 := by decide
  have long : 72 < (simplifyLine 2 (Diagnostic.ofLine longError) longError).length := by
    decide +kernel
  have short : (simplifyLine 2 (Diagnostic.ofLine "x.cpp:3:1:   error: short")
      "x.cpp:3:1:   error: short").length ≤ 72 := by
    decide +kernel
  exact ⟨high, long, (simplifyLine_filled high _ longError).2 long, short,
    (simplifyLine_filled high _ _).1 short⟩

end CompilerFront.Simplify
