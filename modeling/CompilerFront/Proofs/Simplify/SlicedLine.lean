import CompilerFront.Proofs.Diagnostic.Sliced
import CompilerFront.Proofs.Simplify.HeaderLocations
import CompilerFront.Proofs.Simplify.SlicedCode
import CompilerFront.Simplify.Line

set_option autoImplicit false

namespace CompilerFront.Sliced

open Text Simplify

def isDigitByte (byte : UInt8) : Bool := '0'.toNat ≤ byte.toNat && byte.toNat ≤ '9'.toNat

/-- The text behind a line number and the signs that belong to it. -/
def behindPosition? (text : Text) : Option Text :=
  let digits := ((Utf8.encode text).takeWhile isDigitByte).length
  if 0 < digits then
    (sliceFrom? text digits).map fun behind =>
      match (": " : Text).isPrefixOf? behind with
      | some rest => rest
      | none => if behind = [','] then [] else behind
  else some text

/-- One round of the search for headers: what is copied, and the text behind it that is still to be
searched. -/
def nextHeader? (text : Text) : Option (Option (Text × Text)) :=
  match offsetOf? systemHeaders text with
  | none => some none
  | some place => do
    let after ← sliceFrom? text (place + size systemHeaders)
    match (offsetOf? [':'] after).filter (0 < ·) with
    | none =>
      let copied ← sliceTo? text (place + size systemHeaders)
      return some (copied, after)
    | some colon =>
      let copied ← sliceTo? text place
      let behind ← sliceFrom? after (colon + 1)
      return some (copied, ← behindPosition? behind)

theorem isDigitByte_eq {c : Char} (ascii : c.toNat < 0x80) :
    isDigitByte c.toUInt8 = isDigit c := by
  rw [isDigitByte, toNat_toUInt8 ascii]
  rfl

theorem isDigit_of_wide {c : Char} (wide : 0x80 ≤ c.toNat) : isDigit c = false := by
  show (decide (48 ≤ c.val.toNat) && decide (c.val.toNat ≤ 57)) = false
  have above : 0x80 ≤ c.val.toNat := wide
  rw [Bool.and_eq_false_iff, decide_eq_false_iff_not, decide_eq_false_iff_not]
  omega

theorem length_takeWhile_isDigitByte (text : Text) :
    ((Utf8.encode text).takeWhile isDigitByte).length = size (text.takeWhile isDigit) := by
  induction text with
  | nil => rfl
  | cons c rest ih =>
      rcases Nat.lt_or_ge c.toNat 0x80 with ascii | wide
      · rw [Utf8.encode_cons, encodeChar_of_isAscii ascii, List.singleton_append,
          List.takeWhile_cons, List.takeWhile_cons, isDigitByte_eq ascii]
        cases isDigit c with
        | true =>
            rw [if_pos rfl, if_pos rfl, List.length_cons, ih, size_cons, size_of_isAscii ascii,
              Nat.add_comm]
        | false => rfl
      · obtain ⟨first, more, begun, -⟩ := exists_encodeChar_eq_continued c
        have inside : first ∈ Utf8.encodeChar c := by
          rw [begun]
          exact List.mem_cons_self
        have high := le_of_mem_encodeChar wide inside
        have other : isDigitByte first = false := by
          have nine : '9'.toNat = 57 := rfl
          rw [isDigitByte, Bool.and_eq_false_iff, decide_eq_false_iff_not,
            decide_eq_false_iff_not]
          omega
        rw [Utf8.encode_cons, begun, List.cons_append, List.takeWhile_cons, List.takeWhile_cons,
          other, isDigit_of_wide wide]
        rfl

theorem behindPosition?_eq (text : Text) :
    behindPosition? text = some (text.drop (positionLength text)) := by
  have parts : text.takeWhile isDigit ++ text.drop (text.takeWhile isDigit).length = text :=
    List.prefix_iff_eq_append.mp (List.takeWhile_prefix isDigit)
  have sliced : sliceFrom? text (size (text.takeWhile isDigit)) =
      some (text.drop (text.takeWhile isDigit).length) :=
    sliceFrom?_eq_some_iff.mpr ⟨_, parts.symm, rfl⟩
  rw [behindPosition?, length_takeWhile_isDigitByte, positionLength]
  by_cases digits : text.takeWhile isDigit = []
  · rw [digits]
    rfl
  · have numbered : ¬ (text.takeWhile isDigit).isEmpty = true := by
      rw [List.isEmpty_iff]
      exact digits
    rw [if_pos (size_pos digits), if_neg numbered, sliced, Option.map_some, Option.some.injEq]
    cases colon : (": " : Text).isPrefixOf? (text.drop (text.takeWhile isDigit).length) with
    | some rest =>
        have start := List.isPrefixOf?_eq_some_iff_append_eq.mp colon
        have shown := List.isPrefixOf_iff_prefix.mpr ⟨rest, start⟩
        rw [if_pos shown, ← List.drop_drop, ← start]
        rfl
    | none =>
        have other : (": " : Text).isPrefixOf (text.drop (text.takeWhile isDigit).length) =
            false := by
          rw [← List.isSome_isPrefixOf?_eq_isPrefixOf, colon]
          rfl
        rw [if_neg (Bool.eq_false_iff.mp other)]
        by_cases comma : text.drop (text.takeWhile isDigit).length = [',']
        · rw [if_pos comma, if_pos comma, ← List.drop_drop, comma]
          rfl
        · rw [if_neg comma, if_neg comma]

theorem nameEnd?_of_isMention {after : Text} (mention : IsMention after) :
    (offsetOf? [':'] after).filter (0 < ·) = none := by
  rcases mention with colonless | first
  · rw [offsetOf?_eq_none_iff.mpr (cut?_of_not_mem colonless)]
    rfl
  · obtain ⟨rest, rfl⟩ := List.head?_eq_some_iff.mp first
    have atOnce : offsetOf? [':'] (':' :: rest) = some (size []) :=
      offsetOf?_of_cut? (cut?_append_cons List.not_mem_nil rest)
    rw [atOnce]
    rfl

theorem nameEnd?_of_name {name : Text} (named : name ≠ []) (colonless : ':' ∉ name)
    (behind : Text) :
    (offsetOf? [':'] (name ++ ':' :: behind)).filter (0 < ·) = some (size name) := by
  rw [offsetOf?_of_cut? (cut?_append_cons colonless behind), Option.filter_some,
    if_pos (decide_eq_true (size_pos named))]

theorem isRound_nextHeader? (text : Text) :
    IsRound nextHeader? id Simplify.removeHeaderLocations text := by
  unfold IsRound
  cases found : cut? systemHeaders text with
  | none =>
      have absent : ¬ systemHeaders <:+: text := by
        rw [← occursIn_iff_infix, occursIn, found]
        decide
      rw [nextHeader?, offsetOf?_eq_none_iff.mpr found]
      exact .inl ⟨rfl, removeHeaderLocations_of_absent absent⟩
  | some parts =>
      obtain ⟨front, after⟩ := parts
      have shape : text = front ++ (systemHeaders ++ after) := by
        rw [append_of_cut? found, List.append_assoc]
      have sliced := sliceFrom?_behind front systemHeaders after
      rw [← shape] at sliced
      rw [nextHeader?, offsetOf?_of_cut? found, removeHeaderLocations_of_cut? found]
      simp only [sliced, Option.bind_eq_bind, Option.bind_some]
      right
      have longer : after.length + systemHeaders.length ≤ text.length := by
        rw [shape, List.length_append, List.length_append]
        omega
      by_cases mention : IsMention after
      · have unnamed := nameEnd?_of_isMention mention
        have copied := sliceTo?_append (front ++ systemHeaders) after
        rw [List.append_assoc, ← shape, size_append] at copied
        simp only [unnamed, copied, Option.bind_some]
        refine ⟨_, _, rfl, ?_, ?_⟩
        · have positive : 0 < systemHeaders.length := by decide
          omega
        · rw [removeHeaderLocations_mention mention, List.append_assoc]
      · obtain ⟨name, behind, rfl, named, colonless⟩ := exists_name_of_not_isMention mention
        have close := nameEnd?_of_name named colonless behind
        have copied := sliceTo?_append front (systemHeaders ++ (name ++ ':' :: behind))
        have rest := sliceFrom?_behind name [':'] behind
        rw [List.singleton_append, size_of_isAscii (by decide)] at rest
        rw [← shape] at copied
        simp only [close, copied, rest, behindPosition?_eq, Option.bind_some]
        refine ⟨_, _, rfl, ?_, ?_⟩
        · rw [List.length_append, List.length_cons] at longer
          rw [List.length_drop]
          omega
        · rw [removeHeaderLocations_named named colonless]

def headerRounds : Rounds Char where
  next? := nextHeader?
  atEnd := id
  shorter := (isRound_nextHeader? _).shorter

def removeHeaderLocations (text : Text) : Option Text := headerRounds.run? text

theorem removeHeaderLocations_eq (text : Text) :
    removeHeaderLocations text = some (Simplify.removeHeaderLocations text) :=
  headerRounds.run?_eq isRound_nextHeader? text

/-- Writes the simplified form of a fragment for every place where it stands, unless nothing was
simplified. -/
def simplifyWithin (level : Nat) (line fragment : Text) : Option Text := do
  let short ← simplifyFragment level fragment
  return if short ≠ fragment then replaceAll fragment short line else line

def simplifyFragments (level : Nat) (fragments : List Text) (line : Text) : Option Text := do
  let simplified ← fragments.foldlM (simplifyWithin level) line
  let trimmed := trimEnd simplified
  return if isDropped trimmed then []
    else if fillLevel ≤ level ∧ lineWidth < trimmed.length then fillLine trimmed
    else trimmed

def simplifyLine (level : Nat) (diagnostic : Diagnostic) (line : Text) : Option Text :=
  if level = 0 then some line
  else if libraryLevel ≤ level then do
    let short ← removeHeaderLocations line
    if ("error: " : Text).isPrefixOf short then return []
    else simplifyFragments level diagnostic.fragments short
  else simplifyFragments level diagnostic.fragments line

theorem simplifyWithin_eq (level : Nat) (line fragment : Text) :
    simplifyWithin level line fragment = some (Simplify.simplifyWithin level line fragment) := by
  rw [simplifyWithin, simplifyFragment_eq, Option.bind_eq_bind, Option.bind_some,
    Simplify.simplifyWithin]
  by_cases changed : Simplify.simplifyFragment level fragment ≠ fragment
  · rw [if_pos changed]
    rfl
  · rw [if_neg changed, not_not.mp changed, replaceAll_self_right]
    rfl

theorem simplifyFragments_eq (level : Nat) (fragments : List Text) (line : Text) :
    simplifyFragments level fragments line =
      some (Simplify.simplifyFragments level fragments line) := by
  have folded : fragments.foldlM (simplifyWithin level) line =
      some (fragments.foldl (Simplify.simplifyWithin level) line) := by
    simp only [funext fun line => funext (simplifyWithin_eq level line)]
    exact List.foldlM_pure
  rw [simplifyFragments, folded]
  rfl

theorem simplifyLine_eq (level : Nat) (diagnostic : Diagnostic) (line : Text) :
    simplifyLine level diagnostic line = some (Simplify.simplifyLine level diagnostic line) := by
  rw [simplifyLine, Simplify.simplifyLine, removeHeaderLocations_eq]
  split
  · rfl
  · split
    · simp only [Option.bind_eq_bind, Option.bind_some, simplifyFragments_eq]
      split
      · rfl
      · rfl
    · rw [simplifyFragments_eq]

/-- Whatever the compiler prints, reading a line, simplifying a fragment of code and simplifying the
line for any diagnostic all come to an end, and on the way no slice leaves the text or cuts a
character and no access misses its element. What comes out is the diagnostic, the fragment and the
line as they are read off the characters. -/
theorem slices_succeed (level : Nat) (line code : Text) (diagnostic : Diagnostic) :
    ofLine line = some (Diagnostic.ofLine line) ∧
      simplifyFragment level code = some (Simplify.simplifyFragment level code) ∧
      simplifyLine level diagnostic line = some (Simplify.simplifyLine level diagnostic line) := by
  refine ⟨?_, ?_, ?_⟩
  · exact ofLine_eq line
  · exact simplifyFragment_eq level code
  · exact simplifyLine_eq level diagnostic line

end CompilerFront.Sliced
