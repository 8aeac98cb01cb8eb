import CompilerFront.Diagnostic
import CompilerFront.Proofs.Diagnostic.Quotation
import CompilerFront.Proofs.Diagnostic.Segments
import CompilerFront.Proofs.Text.Slice

set_option autoImplicit false

/-!
Reading a line by offsets in bytes. Every slice and every access to an element may fail, and then
the reading does; that it gives the diagnostic of every line shows that none of them ever fails.
-/
namespace CompilerFront.Sliced

open Text Diagnostic

def from? {α : Type} (list : List α) (start : Nat) : Option (List α) :=
  if start ≤ list.length then some (list.drop start) else none

/-- Whether a colon stands right in front of an offset, if it is not that of the first byte. -/
def isBehindColon? (bytes : List UInt8) (i : Nat) : Option Bool :=
  if 0 < i then (bytes[i - 1]?).map (· = ':'.toUInt8) else some false

/-- Whether a line is cut at one of its bytes: at a colon that has no other one next to it, and at a
comma that is the last byte. -/
def isCut? (bytes : List UInt8) (i : Nat) (byte : UInt8) : Option Bool :=
  if byte = ':'.toUInt8 then
    (isBehindColon? bytes i).map fun behind => !behind && bytes[i + 1]? ≠ some ':'.toUInt8
  else some (byte = ','.toUInt8 && i + 1 = bytes.length)

/-- The segments of a line from the offset `start` on, of which the bytes up to the offset `i` are
no cuts; the last argument holds the bytes behind that. -/
def segmentsFrom (line : Text) : (start i : Nat) → List UInt8 → Option (List Text)
  | start, _, [] => do return [trim (← sliceFrom? line start)]
  | start, i, byte :: rest => do
    if ← isCut? (Utf8.encode line) i byte then
      let segment ← slice? line start i
      return trim segment :: (← segmentsFrom line (i + 1) (i + 1) rest)
    else segmentsFrom line start (i + 1) rest

def segments (line : Text) : Option (List Text) := segmentsFrom line 0 0 (Utf8.encode line)

def upTo? (text : Text) (stop : Nat) : Option (List Text) :=
  if 0 < stop then (sliceTo? text stop).map ([·]) else some []

/-- One round of the search for quotes: what is quoted next, if anything is, and the text behind
it. -/
def nextQuotation? (message : Text) : Option (Option (List Text × Text)) :=
  match offsetOf? [openQuote] message with
  | none => some none
  | some opening => do
    let after ← sliceFrom? message (opening + size [openQuote])
    match offsetOf? [closeQuote] after with
    | none => some none
    | some closing => do
      let quoted ← upTo? after closing
      let behind ← sliceFrom? after (closing + size [closeQuote])
      return some (quoted, behind)

theorem from?_append {α : Type} (front behind : List α) :
    from? (front ++ behind) front.length = some behind := by
  rw [from?, if_pos, List.drop_left]
  rw [List.length_append]
  omega

section

variable {line : Text} {i : Nat}

theorem segmentsFrom_append {start : Nat} {bytes : List UInt8}
    (wide : ∀ byte ∈ bytes, 0x80 ≤ byte.toNat) (rest : List UInt8) :
    segmentsFrom line start i (bytes ++ rest) =
      segmentsFrom line start (i + bytes.length) rest := by
  induction bytes generalizing i with
  | nil => rfl
  | cons byte bytes ih =>
      obtain ⟨high, others⟩ := List.forall_mem_cons.mp wide
      have noColon : byte ≠ ':'.toUInt8 := by
        rintro rfl
        exact absurd high (by decide)
      have noComma : byte ≠ ','.toUInt8 := by
        rintro rfl
        exact absurd high (by decide)
      have goesOn : isCut? (Utf8.encode line) i byte = some false := by
        simp [isCut?, noColon, noComma]
      have next : i + 1 + bytes.length = i + (byte :: bytes).length := by
        rw [List.length_cons]
        omega
      rw [List.cons_append, segmentsFrom, goesOn, ← next, ← ih others]
      rfl

theorem isBehindColon?_eq (front : Text) (rest : List UInt8) :
    isBehindColon? (Utf8.encode front ++ rest) (size front) =
      some (decide (front.getLast? = some ':')) := by
  by_cases empty : front = []
  · subst empty
    rfl
  · have positive : 0 < size front := size_pos empty
    have inside : size front - 1 < (Utf8.encode front).length := by
      show size front - 1 < size front
      omega
    have byte : (Utf8.encode front ++ rest)[size front - 1]? = (Utf8.encode front).getLast? := by
      rw [List.getElem?_append_left inside, List.getLast?_eq_getElem?]
      rfl
    obtain ⟨last, shown⟩ := Option.isSome_iff_exists.mp
      (List.getLast?_isSome.mpr (List.ne_nil_of_length_pos positive))
    have same : last = ':'.toUInt8 ↔ front.getLast? = some ':' := by
      rw [← getLast?_encode_eq_iff (show ':'.toNat < 0x80 by decide), shown, Option.some.injEq]
    rw [isBehindColon?, if_pos positive, byte, shown, Option.map_some, Option.some.injEq]
    exact decide_eq_decide.mpr same

/-- At a character of ASCII the bytes next to it tell what the characters next to it do. -/
theorem isCut?_eq (front rest : Text) {c : Char} (ascii : c.toNat < 0x80) :
    isCut? (Utf8.encode (front ++ c :: rest)) (size front) c.toUInt8 =
      some (Diagnostic.isCut front.getLast? c rest) := by
  have bytes : Utf8.encode (front ++ c :: rest) =
      Utf8.encode front ++ c.toUInt8 :: Utf8.encode rest := by
    rw [Utf8.encode_append, Utf8.encode_cons, encodeChar_of_isAscii ascii, List.singleton_append]
  have sameByte {d : Char} (plain : d.toNat < 0x80) : c.toUInt8 = d.toUInt8 ↔ c = d := by
    rw [← toUInt8_mem_encodeChar_iff plain, encodeChar_of_isAscii ascii, List.mem_singleton,
      eq_comm]
  have after : (Utf8.encode (front ++ c :: rest))[size front + 1]? = (Utf8.encode rest).head? := by
    rw [bytes, size, List.getElem?_append_right (Nat.le_add_right _ _), Nat.add_sub_cancel_left,
      List.getElem?_cons_succ, List.head?_eq_getElem?]
  have ends : size front + 1 = (Utf8.encode (front ++ c :: rest)).length ↔ rest = [] := by
    have total : (Utf8.encode (front ++ c :: rest)).length = size front + (size rest + 1) := by
      rw [bytes, List.length_append, List.length_cons]
      rfl
    rw [total]
    constructor
    · intro nothing
      by_contra solid
      have positive := size_pos solid
      omega
    · rintro rfl
      rfl
  by_cases colon : c = ':'
  · subst colon
    have next : (Utf8.encode rest).head? = some ':'.toUInt8 ↔ rest.head? = some ':' :=
      head?_encode_eq_iff ascii
    rw [isCut?, if_pos rfl, after, bytes, isBehindColon?_eq, Option.map_some, Option.some.injEq]
    simp [Diagnostic.isCut, next]
  · have noColon : c.toUInt8 ≠ ':'.toUInt8 := fun same =>
      colon ((sameByte (by decide)).mp same)
    have comma := sameByte (d := ',') (by decide)
    rw [isCut?, if_neg noColon, Option.some.injEq, Bool.eq_iff_iff, isCut_iff]
    simp only [Bool.and_eq_true, decide_eq_true_eq, comma, ends, colon, false_and, false_or]

/-- What stands in front of a piece that is under way is left alone. -/
theorem segmentsFrom_eq (done part rest : Text) {first : Text} {others : List Text}
    (cut : Diagnostic.pieces (done ++ part).getLast? rest = first :: others) :
    segmentsFrom (done ++ (part ++ rest)) (size done) (size done + size part)
        (Utf8.encode rest) =
      some (((part ++ first) :: others).map trim) := by
  induction rest generalizing done part first others with
  | nil =>
      obtain ⟨rfl, rfl⟩ := List.cons.inj cut
      rw [Utf8.encode_nil, segmentsFrom, sliceFrom?_append]
      rfl
  | cons c rest ih =>
      have last : (done ++ (part ++ [c])).getLast? = some c := by
        rw [← List.append_assoc, List.getLast?_concat]
      obtain ⟨next, later, goesOn⟩ :=
        List.exists_cons_of_ne_nil (Diagnostic.pieces_ne_nil (some c) rest)
      rw [Diagnostic.pieces, goesOn] at cut
      -- The character joins the piece at hand, or the piece ends in front of it.
      have behind : Diagnostic.pieces (done ++ (part ++ [c])).getLast? rest = next :: later := by
        rw [last]
        exact goesOn
      have taken := ih done (part ++ [c]) behind
      rw [← List.append_nil (done ++ (part ++ [c]))] at behind
      have fresh := ih (done ++ (part ++ [c])) [] behind
      simp only [size_append, size_nil, List.append_assoc, List.singleton_append, List.nil_append,
        ← Nat.add_assoc, Nat.add_zero] at taken fresh
      rcases Nat.lt_or_ge c.toNat 0x80 with ascii | wide
      · have decided := isCut?_eq (done ++ part) rest ascii
        rw [List.append_assoc, size_append] at decided
        rw [size_of_isAscii ascii] at taken fresh
        rw [Utf8.encode_cons, encodeChar_of_isAscii ascii, List.singleton_append, segmentsFrom,
          decided]
        cases isCut : Diagnostic.isCut (done ++ part).getLast? c rest with
        | true =>
            rw [if_pos isCut] at cut
            obtain ⟨rfl, rfl⟩ := List.cons.inj cut
            simp only [Option.bind_eq_bind, Option.bind_some, ↓reduceIte, slice?_append, fresh]
            rw [List.append_nil]
            rfl
        | false =>
            rw [if_neg (Bool.eq_false_iff.mp isCut)] at cut
            obtain ⟨rfl, rfl⟩ := List.cons.inj cut
            simp only [Option.bind_eq_bind, Option.bind_some, Bool.false_eq_true, ↓reduceIte, taken]
      · rw [if_neg (by
          rw [isCut_iff]
          rintro (⟨rfl, -⟩ | ⟨rfl, -⟩)
          · exact absurd wide (by decide)
          · exact absurd wide (by decide))] at cut
        obtain ⟨rfl, rfl⟩ := List.cons.inj cut
        have width : (Utf8.encodeChar c).length = size [c] := by
          rw [size, Utf8.encode_cons, Utf8.encode_nil, List.append_nil]
        rw [Utf8.encode_cons, segmentsFrom_append (fun byte => le_of_mem_encodeChar wide), width,
          taken]

end

theorem segments_eq (line : Text) : segments line = some (Diagnostic.segments line) := by
  obtain ⟨first, others, cut⟩ := List.exists_cons_of_ne_nil (Diagnostic.pieces_ne_nil none line)
  have read := segmentsFrom_eq [] [] line cut
  rw [segments, Diagnostic.segments, cut]
  exact read

theorem upTo?_append (front behind : Text) :
    upTo? (front ++ behind) (size front) = some ([front].filter (!·.isEmpty)) := by
  cases front with
  | nil => rfl
  | cons c front => rw [upTo?, if_pos (size_pos (List.cons_ne_nil c front)), sliceTo?_append]; rfl

theorem isRound_nextQuotation? (message : Text) :
    IsRound nextQuotation? (fun _ => []) Diagnostic.quotations message := by
  unfold IsRound
  by_cases opened : openQuote ∈ message
  · obtain ⟨piece, after, rfl, unopened⟩ := List.eq_append_cons_of_mem opened
    have sliced := sliceFrom?_behind piece [openQuote] after
    rw [List.singleton_append] at sliced
    rw [nextQuotation?, offsetOf?_of_cut? (cut?_append_cons unopened after)]
    simp only [Option.bind_eq_bind, sliced, Option.bind_some]
    by_cases closed : closeQuote ∈ after
    · obtain ⟨fragment, behind, rfl, unclosed⟩ := List.eq_append_cons_of_mem closed
      have rest := sliceFrom?_behind fragment [closeQuote] behind
      rw [List.singleton_append] at rest
      rw [offsetOf?_of_cut? (cut?_append_cons unclosed behind)]
      simp only [upTo?_append, rest, Option.bind_some]
      refine .inr ⟨_, _, rfl, ?_, quotationsFrom_quotation unopened unclosed behind⟩
      simp only [List.length_append, List.length_cons]
      omega
    · rw [offsetOf?_eq_none_iff.mpr (cut?_of_not_mem closed)]
      exact .inl ⟨rfl, quotations_of_unquoted (unquoted_of_first unopened closed)⟩
  · rw [nextQuotation?, offsetOf?_eq_none_iff.mpr (cut?_of_not_mem opened)]
    refine .inl ⟨rfl, quotations_of_unquoted ?_⟩
    rintro before behind rfl
    exact absurd (List.mem_append_right before List.mem_cons_self) opened

def quotationRounds : Rounds Text where
  next? := nextQuotation?
  atEnd _ := []
  shorter := (isRound_nextQuotation? _).shorter

def quotations (message : Text) : Option (List Text) := quotationRounds.run? message

theorem quotations_eq (message : Text) :
    quotations message = some (Diagnostic.quotations message) :=
  quotationRounds.run?_eq isRound_nextQuotation? message

def withMessage (diagnostic : Diagnostic) (segments : List Text) : Option Diagnostic := do
  let message := joinWith ": " segments
  let quoted ← quotations message
  let fragments :=
    if quoted.isEmpty then [plainFragment segments].filter (!·.isEmpty) else quoted
  return { diagnostic with message, fragments }

/-- The column, where a numeral follows the line number, and the index behind it. -/
def columnAt? (segments : List Text) : Option (Option Nat × Nat) :=
  if (segments[2]?).any isNumeral then (segments[2]?).map fun numeral => (position? numeral, 3)
  else some (none, 2)

/-- The kind that is named at an index, if one is, and the index of the message. -/
def kindAt (segments : List Text) (next : Nat) : DiagnosticKind × Nat :=
  match (segments[next]?).bind DiagnosticKind.ofWord? with
  | some kind => (kind, next + 1)
  | none => (.note, next)

/-- A line in at least two segments whose first one names a file. -/
def located (segments : List Text) (file : Text) : Option Diagnostic := do
  let place := { unclassified with file, inSystemHeader := systemHeaders.isPrefixOf file }
  let second ← segments[1]?
  if isLinkerReference second then
    withMessage { place with kind := some .warning } (← from? segments 2)
  else if isNumeral second then
    let (column, next) ← columnAt? segments
    let (kind, body) := kindAt segments next
    withMessage { place with kind := some kind, line := position? second, column }
      ((from? segments body).getD [])
  else if second.isEmpty then some place
  else withMessage { place with kind := some .note } (← from? segments 1)

def ofLine (line : Text) : Option Diagnostic := do
  let segments ← segments (trim line)
  if segments.length = 1 then
    withMessage { unclassified with kind := some .note, file := "<unknown>" } segments
  else
    let head := withoutChainWords (← segments[0]?)
    if head = "collect2".toList then
      withMessage { unclassified with kind := some .message } (← from? segments 1)
    else if head.isEmpty || head.contains ' ' then some unclassified
    else located segments head

theorem withMessage_eq (diagnostic : Diagnostic) (segments : List Text) :
    withMessage diagnostic segments = some (diagnostic.withMessage segments) := by
  rw [withMessage, quotations_eq]
  rfl

theorem columnAt?_eq (first second : Text) (rest : List Text) :
    ∃ front, first :: second :: rest = front ++ (takeColumn rest).2 ∧
      columnAt? (first :: second :: rest) = some ((takeColumn rest).1, front.length) := by
  cases rest with
  | nil => exact ⟨[first, second], rfl, rfl⟩
  | cons third rest =>
      rw [takeColumn]
      cases numeric : isNumeral third with
      | true =>
          refine ⟨[first, second, third], rfl, ?_⟩
          simp [columnAt?, numeric]
      | false =>
          refine ⟨[first, second], rfl, ?_⟩
          simp [columnAt?, numeric]

theorem kindAt_eq (front behind : List Text) :
    ∃ whole, front ++ behind = whole ++ (takeKind behind).2 ∧
      kindAt (front ++ behind) front.length = ((takeKind behind).1, whole.length) := by
  have looked : (front ++ behind)[front.length]? = behind.head? := by
    rw [List.getElem?_append_right (Nat.le_refl _), Nat.sub_self, List.head?_eq_getElem?]
  rw [kindAt, looked]
  cases behind with
  | nil => exact ⟨front, rfl, rfl⟩
  | cons word rest =>
      rw [takeKind, List.head?_cons, Option.bind_some]
      cases DiagnosticKind.ofWord? word with
      | none => exact ⟨front, rfl, rfl⟩
      | some kind =>
          refine ⟨front ++ [word], ?_, ?_⟩
          · rw [List.append_assoc, List.singleton_append]
          · rw [List.length_append, List.length_singleton]

/-- What is read at the indices of the segments is what stands there. -/
theorem located_eq (first second : Text) (rest : List Text) (file : Text) :
    located (first :: second :: rest) file = some (Diagnostic.located file second rest) := by
  have fromSecond : from? (first :: second :: rest) 1 = some (second :: rest) :=
    from?_append [first] (second :: rest)
  have fromThird : from? (first :: second :: rest) 2 = some rest :=
    from?_append [first, second] rest
  have atSecond : (first :: second :: rest)[1]? = some second := rfl
  obtain ⟨front, places, column⟩ := columnAt?_eq first second rest
  obtain ⟨whole, words, kind⟩ := kindAt_eq front (takeColumn rest).2
  rw [← places] at words kind
  have fromBody : from? (first :: second :: rest) whole.length =
      some (takeKind (takeColumn rest).2).2 := by
    rw [words, from?_append]
  simp only [located, atSecond, fromSecond, fromThird, column, kind, fromBody, withMessage_eq,
    Option.bind_eq_bind, Option.bind_some, Option.getD_some]
  rw [Diagnostic.located]
  split
  · rfl
  · split
    · rfl
    · split
      · rfl
      · rfl

/-- A line is read without any slice or access that fails. -/
theorem ofLine_eq (line : Text) : ofLine line = some (Diagnostic.ofLine line) := by
  have started := Diagnostic.segments_ne_nil (trim line)
  rw [ofLine, segments_eq, Diagnostic.ofLine]
  match Diagnostic.segments (trim line), started with
  | [single], _ => exact withMessage_eq _ [single]
  | first :: second :: rest, _ =>
      have several : (first :: second :: rest).length ≠ 1 := by
        simp only [List.length_cons]
        omega
      have atFirst : (first :: second :: rest)[0]? = some first := rfl
      have fromSecond : from? (first :: second :: rest) 1 = some (second :: rest) :=
        from?_append [first] (second :: rest)
      simp only [Option.bind_eq_bind, Option.bind_some, if_neg several, atFirst, fromSecond,
        withMessage_eq, located_eq, ofSegments]
      split
      · rfl
      · split
        · rfl
        · rfl

end CompilerFront.Sliced
