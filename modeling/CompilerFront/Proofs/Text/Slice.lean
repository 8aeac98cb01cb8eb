import CompilerFront.Proofs.Text.Occurrence
import CompilerFront.Proofs.Text.Utf8Sequences

set_option autoImplicit false

/-!
Texts as their bytes in UTF-8. Places are offsets in bytes, and a slice between two offsets exists
only if both are inside of the text and neither cuts a character. A loop that goes on with what is
left of a text ends because every round leaves less.
-/
namespace CompilerFront.Text

open Utf8

def size (text : Text) : Nat := (encode text).length

/-- Whether a byte continues a character that an earlier one has begun. -/
def isContinuation (byte : UInt8) : Bool := 0x80 ≤ byte.toNat && byte.toNat ≤ 0xBF

/-- Whether an offset is one between two characters or at an end of the text. -/
def isBoundary (text : Text) (offset : Nat) : Bool :=
  match (encode text)[offset]? with
  | some byte => !isContinuation byte
  | none => offset = size text

def slice? (text : Text) (start stop : Nat) : Option Text :=
  if start ≤ stop ∧ isBoundary text start ∧ isBoundary text stop then
    some (decode (((encode text).take stop).drop start))
  else none

def sliceFrom? (text : Text) (start : Nat) : Option Text := slice? text start (size text)

def sliceTo? (text : Text) (stop : Nat) : Option Text := slice? text 0 stop

def offsetOf? (pattern text : Text) : Option Nat :=
  (cut? pattern text).map fun parts => size parts.1

@[simp] theorem size_nil : size [] = 0 := rfl

@[simp] theorem size_append (first second : Text) :
    size (first ++ second) = size first + size second := by
  rw [size, encode_append, List.length_append, size, size]

theorem size_cons (c : Char) (rest : Text) : size (c :: rest) = size [c] + size rest :=
  size_append [c] rest

theorem exists_encodeChar_eq_continued (c : Char) :
    ∃ first rest, encodeChar c = first :: rest ∧ isContinuation first = false ∧
      ∀ byte ∈ rest, isContinuation byte = true := by
  have range := scalar_range c
  simp only [encodeChar]
  repeat' split
  all_goals
    refine ⟨_, _, rfl, ?_, ?_⟩
    · rw [isContinuation, UInt8.toNat_ofNat', Bool.and_eq_false_iff, decide_eq_false_iff_not,
        decide_eq_false_iff_not]
      omega
    · simp only [List.forall_mem_cons, List.not_mem_nil, false_imp_iff, forall_const, and_true,
        isContinuation, UInt8.toNat_ofNat', Bool.and_eq_true, decide_eq_true_eq]
      try omega

theorem size_pos {text : Text} (solid : text ≠ []) : 0 < size text := by
  obtain ⟨c, rest, rfl⟩ := List.exists_cons_of_ne_nil solid
  obtain ⟨first, more, begun, -⟩ := exists_encodeChar_eq_continued c
  rw [size, encode_cons, begun]
  exact Nat.succ_pos _

theorem encodeChar_of_isAscii {c : Char} (ascii : c.toNat < 0x80) :
    encodeChar c = [c.toUInt8] := by
  simp only [encodeChar, if_pos ascii]
  rfl

theorem size_of_isAscii {c : Char} (ascii : c.toNat < 0x80) : size [c] = 1 := by
  rw [size, encode_cons, encodeChar_of_isAscii ascii]
  rfl

theorem one_lt_size {c : Char} (wide : 0x80 ≤ c.toNat) : 1 < size [c] := by
  rw [size, encode_cons, encode_nil, List.append_nil]
  simp only [encodeChar]
  rw [if_neg (by omega)]
  split
  · show 1 < 2
    omega
  · split
    · show 1 < 3
      omega
    · show 1 < 4
      omega

theorem le_of_mem_encodeChar {c : Char} (wide : 0x80 ≤ c.toNat) {byte : UInt8}
    (inside : byte ∈ encodeChar c) : 0x80 ≤ byte.toNat := by
  have range := scalar_range c
  simp only [encodeChar] at inside
  rw [if_neg (by omega)] at inside
  split at inside
  · simp only [List.mem_cons, List.not_mem_nil, or_false] at inside
    rcases inside with rfl | rfl
    all_goals
      rw [UInt8.toNat_ofNat']
      omega
  · split at inside
    · simp only [List.mem_cons, List.not_mem_nil, or_false] at inside
      rcases inside with rfl | rfl | rfl
      all_goals
        rw [UInt8.toNat_ofNat']
        omega
    · simp only [List.mem_cons, List.not_mem_nil, or_false] at inside
      rcases inside with rfl | rfl | rfl | rfl
      all_goals
        rw [UInt8.toNat_ofNat']
        omega

section

variable {d : Char} (ascii : d.toNat < 0x80)

include ascii

theorem toNat_toUInt8 : d.toUInt8.toNat = d.toNat := by
  show (UInt8.ofNat d.toNat).toNat = d.toNat
  rw [UInt8.toNat_ofNat']
  omega

/-- The byte of an ASCII character stands for nothing else. -/
theorem toUInt8_mem_encodeChar_iff {c : Char} : d.toUInt8 ∈ encodeChar c ↔ c = d := by
  constructor
  · intro inside
    rcases Nat.lt_or_ge c.toNat 0x80 with narrow | wide
    · rw [encodeChar_of_isAscii narrow, List.mem_singleton] at inside
      have codes := congrArg UInt8.toNat inside
      rw [toNat_toUInt8 ascii, toNat_toUInt8 narrow] at codes
      exact Char.toNat_inj.mp codes.symm
    · have high := le_of_mem_encodeChar wide inside
      rw [toNat_toUInt8 ascii] at high
      omega
  · rintro rfl
    rw [encodeChar_of_isAscii ascii]
    exact List.mem_singleton_self _

theorem head?_encode_eq_iff {text : Text} :
    (encode text).head? = some d.toUInt8 ↔ text.head? = some d := by
  cases text with
  | nil => simp
  | cons c rest =>
      obtain ⟨first, more, begun, -⟩ := exists_encodeChar_eq_continued c
      rw [encode_cons, begun, List.cons_append, List.head?_cons, List.head?_cons,
        Option.some.injEq, Option.some.injEq]
      constructor
      · rintro rfl
        apply (toUInt8_mem_encodeChar_iff ascii).mp
        rw [begun]
        exact List.mem_cons_self
      · rintro rfl
        rw [encodeChar_of_isAscii ascii] at begun
        exact (List.cons.inj begun).1.symm

theorem getLast?_encode_eq_iff {text : Text} :
    (encode text).getLast? = some d.toUInt8 ↔ text.getLast? = some d := by
  rcases List.eq_nil_or_concat text with rfl | ⟨front, c, rfl⟩
  · simp
  · obtain ⟨first, more, begun, -⟩ := exists_encodeChar_eq_continued c
    have solid : encodeChar c ≠ [] := by
      rw [begun]
      exact List.cons_ne_nil first more
    rw [List.concat_eq_append, encode_append, encode_cons, encode_nil, List.append_nil,
      List.getLast?_append_of_ne_nil _ solid, List.getLast?_append_of_ne_nil _ (by simp),
      List.getLast?_singleton, Option.some.injEq]
    constructor
    · intro last
      exact (toUInt8_mem_encodeChar_iff ascii).mp (List.mem_of_getLast? last)
    · rintro rfl
      rw [encodeChar_of_isAscii ascii, List.getLast?_singleton]

end

/-- An offset behind the front of a text is one in the rest. -/
theorem isBoundary_append (front behind : Text) (offset : Nat) :
    isBoundary (front ++ behind) (size front + offset) = isBoundary behind offset := by
  have lookup : (encode (front ++ behind))[size front + offset]? = (encode behind)[offset]? := by
    rw [encode_append, size, List.getElem?_append_right (Nat.le_add_right _ _),
      Nat.add_sub_cancel_left]
  have ends : (size front + offset = size (front ++ behind)) ↔ offset = size behind := by
    rw [size_append]
    omega
  simp only [isBoundary, lookup, ends]

theorem isBoundary_zero (text : Text) : isBoundary text 0 = true := by
  cases text with
  | nil => rfl
  | cons c rest =>
      obtain ⟨first, more, begun, starts, -⟩ := exists_encodeChar_eq_continued c
      rw [isBoundary, encode_cons, begun, List.cons_append, List.getElem?_cons_zero]
      simp only [starts, Bool.not_false]

/-- The offsets that cut no character are the sizes of the fronts of the text. -/
theorem isBoundary_iff {text : Text} {offset : Nat} :
    isBoundary text offset = true ↔
      ∃ front behind, text = front ++ behind ∧ offset = size front := by
  constructor
  · intro boundary
    induction text generalizing offset with
    | nil =>
        rw [isBoundary, encode_nil, List.getElem?_nil, decide_eq_true_eq] at boundary
        exact ⟨[], [], rfl, boundary⟩
    | cons c rest ih =>
        obtain ⟨first, more, begun, -, continued⟩ := exists_encodeChar_eq_continued c
        have one : size [c] = more.length + 1 := by
          rw [size, encode_cons, begun, encode_nil, List.append_nil, List.length_cons]
        rcases Nat.lt_or_ge offset (size [c]) with inside | behind
        · cases offset with
          | zero => exact ⟨[], c :: rest, rfl, rfl⟩
          | succ index =>
              -- The byte at the offset is inside of the first character.
              have short : index < more.length := by omega
              have byte : (encode (c :: rest))[index + 1]? = some more[index] := by
                rw [encode_cons, begun, List.cons_append, List.getElem?_cons_succ,
                  List.getElem?_append_left short, List.getElem?_eq_getElem short]
              rw [isBoundary, byte] at boundary
              have inner := continued _ (List.getElem_mem short)
              simp only [inner, Bool.not_true, Bool.false_eq_true] at boundary
        · obtain ⟨index, rfl⟩ := Nat.exists_eq_add_of_le behind
          have later : isBoundary rest index = true := by
            rw [← isBoundary_append [c] rest]
            exact boundary
          obtain ⟨front, tail, rfl, rfl⟩ := ih later
          exact ⟨c :: front, tail, rfl, (size_cons c front).symm⟩
  · rintro ⟨front, behind, rfl, rfl⟩
    have start := isBoundary_append front behind 0
    rw [Nat.add_zero] at start
    rw [start, isBoundary_zero]

theorem decode_encode (text : Text) : decode (encode text) = text := by
  have whole := decodeFrom_encode text []
  rw [List.append_nil] at whole
  rw [decode, whole]
  exact List.append_nil text

/-- A slice is a part of the text, its offsets the sizes of what is in front of its ends. -/
theorem slice?_eq_some_iff {text middle : Text} {start stop : Nat} :
    slice? text start stop = some middle ↔
      ∃ front behind, text = front ++ (middle ++ behind) ∧ start = size front ∧
        stop = size front + size middle := by
  have cut (front middle behind : Text) :
      decode (((encode (front ++ (middle ++ behind))).take (size front + size middle)).drop
        (size front)) = middle := by
    rw [encode_append, encode_append, size, size, List.take_length_add_append, List.take_left,
      List.drop_left, decode_encode]
  constructor
  · intro sliced
    rw [slice?] at sliced
    split at sliced
    · rename_i proper
      obtain ⟨ordered, starts, stops⟩ := proper
      obtain ⟨front, rest, rfl, rfl⟩ := isBoundary_iff.mp starts
      obtain ⟨index, rfl⟩ := Nat.exists_eq_add_of_le ordered
      rw [isBoundary_append] at stops
      obtain ⟨part, behind, rfl, rfl⟩ := isBoundary_iff.mp stops
      rw [cut, Option.some.injEq] at sliced
      rw [← sliced]
      exact ⟨front, behind, rfl, rfl, rfl⟩
    · cases sliced
  · rintro ⟨front, behind, rfl, rfl, rfl⟩
    have starts := isBoundary_iff.mpr ⟨front, middle ++ behind, rfl, rfl⟩
    have stops : isBoundary (front ++ (middle ++ behind)) (size front + size middle) = true := by
      apply isBoundary_iff.mpr
      refine ⟨front ++ middle, behind, ?_, (size_append front middle).symm⟩
      rw [List.append_assoc]
    rw [slice?, if_pos ⟨Nat.le_add_right _ _, starts, stops⟩, cut]

/-- An opening quote is three bytes. -/
example : slice? ['\u2018', 'a'] 3 4 = some ['a'] ∧ slice? ['\u2018', 'a'] 1 4 = none := by
  decide +kernel

section

variable (front middle behind : Text)

theorem slice?_append :
    slice? (front ++ (middle ++ behind)) (size front) (size front + size middle) = some middle :=
  slice?_eq_some_iff.mpr ⟨front, behind, rfl, rfl, rfl⟩

theorem sliceFrom?_append : sliceFrom? (front ++ behind) (size front) = some behind := by
  have whole := slice?_append front behind []
  rw [List.append_nil] at whole
  rw [sliceFrom?, size_append, whole]

theorem sliceFrom?_behind :
    sliceFrom? (front ++ (middle ++ behind)) (size front + size middle) = some behind := by
  rw [← List.append_assoc, ← size_append, sliceFrom?_append]

theorem sliceTo?_append : sliceTo? (front ++ behind) (size front) = some front := by
  have whole := slice?_append [] front behind
  rw [size_nil, Nat.zero_add] at whole
  exact whole

end

/-- What a slice up to the end leaves out is a front of the text. -/
theorem sliceFrom?_eq_some_iff {text rest : Text} {start : Nat} :
    sliceFrom? text start = some rest ↔ ∃ front, text = front ++ rest ∧ start = size front := by
  constructor
  · intro sliced
    obtain ⟨front, behind, rfl, starts, stops⟩ := slice?_eq_some_iff.mp sliced
    have nothing : behind = [] := by
      by_contra solid
      have positive := size_pos solid
      rw [size_append, size_append] at stops
      omega
    refine ⟨front, ?_, starts⟩
    rw [nothing, List.append_nil]
  · rintro ⟨front, rfl, rfl⟩
    exact sliceFrom?_append front rest

/-- One byte further on the text goes on only behind an ASCII character. -/
theorem sliceFrom?_succ (front behind : Text) :
    sliceFrom? (front ++ behind) (size front + 1) =
      match behind with
      | [] => none
      | c :: rest => if c.toNat < 0x80 then some rest else none := by
  have none_of_absent (absent : ∀ rest, sliceFrom? (front ++ behind) (size front + 1) ≠ some rest) :
      sliceFrom? (front ++ behind) (size front + 1) = none := by
    rw [Option.eq_none_iff_forall_ne_some]
    exact absent
  cases behind with
  | nil =>
      apply none_of_absent
      intro rest sliced
      obtain ⟨whole, shape, width⟩ := sliceFrom?_eq_some_iff.mp sliced
      have total := congrArg size shape
      rw [List.append_nil, size_append] at total
      omega
  | cons c rest =>
      simp only
      split
      · rename_i ascii
        rw [← size_of_isAscii ascii]
        exact sliceFrom?_behind front [c] rest
      · rename_i wide
        apply none_of_absent
        intro later sliced
        obtain ⟨whole, shape, width⟩ := sliceFrom?_eq_some_iff.mp sliced
        have boundary : isBoundary (c :: rest) 1 = true := by
          rw [← isBoundary_append front, isBoundary_iff]
          exact ⟨whole, later, shape, width⟩
        obtain ⟨start, _, parts, one⟩ := isBoundary_iff.mp boundary
        cases start with
        | nil => cases one
        | cons d more =>
            obtain ⟨rfl, -⟩ := List.cons.inj parts
            have long := one_lt_size (Nat.le_of_not_lt wide)
            rw [size_cons] at one
            omega

theorem offsetOf?_eq_none_iff {pattern text : Text} :
    offsetOf? pattern text = none ↔ cut? pattern text = none :=
  Option.map_eq_none_iff

theorem offsetOf?_of_cut? {pattern text before behind : Text}
    (found : cut? pattern text = some (before, behind)) :
    offsetOf? pattern text = some (size before) := by
  rw [offsetOf?, found, Option.map_some]

section

variable {α : Type}

/-- The rounds of a loop over a text. A round may fail, or end the loop, or give a part of the
result together with the text that is left. -/
structure Rounds (α : Type) where
  next? : Text → Option (Option (List α × Text))
  /-- What the last text adds to the result. -/
  atEnd : Text → List α
  shorter : ∀ {text part rest}, next? text = some (some (part, rest)) → rest.length < text.length

def Rounds.run? (rounds : Rounds α) (text : Text) : Option (List α) :=
  match _ : rounds.next? text with
  | none => none
  | some none => some (rounds.atEnd text)
  | some (some (part, rest)) => (rounds.run? rest).map (part ++ ·)
termination_by text.length
decreasing_by exact rounds.shorter ‹_›

/-- A round that does not fail and takes its part of a result off, from a text that gets shorter. -/
def IsRound (next? : Text → Option (Option (List α × Text))) (atEnd whole : Text → List α)
    (text : Text) : Prop :=
  (next? text = some none ∧ whole text = atEnd text) ∨
    ∃ part rest, next? text = some (some (part, rest)) ∧ rest.length < text.length ∧
      whole text = part ++ whole rest

theorem IsRound.shorter {next? : Text → Option (Option (List α × Text))}
    {atEnd whole : Text → List α} {text rest : Text} {part : List α}
    (isRound : IsRound next? atEnd whole text) (left : next? text = some (some (part, rest))) :
    rest.length < text.length := by
  rcases isRound with ⟨ended, -⟩ | ⟨_, _, found, shorter, -⟩
  · rw [ended] at left
    cases left
  · rw [found] at left
    cases left
    exact shorter

/-- If every round takes its part off, the loop gives the whole. -/
theorem Rounds.run?_eq (rounds : Rounds α) {whole : Text → List α}
    (areRounds : ∀ text, IsRound rounds.next? rounds.atEnd whole text) (text : Text) :
    rounds.run? text = some (whole text) := by
  fun_induction rounds.run? text with
  | case1 text failed =>
      rcases areRounds text with ⟨ended, -⟩ | ⟨_, _, found, -⟩
      · rw [ended] at failed
        cases failed
      · rw [found] at failed
        cases failed
  | case2 text ended =>
      rcases areRounds text with ⟨-, same⟩ | ⟨_, _, found, -⟩
      · rw [same]
      · rw [found] at ended
        cases ended
  | case3 text part rest left ih =>
      rcases areRounds text with ⟨ended, -⟩ | ⟨_, _, found, -, parts⟩
      · rw [ended] at left
        cases left
      · rw [found] at left
        cases left
        rw [ih, parts, Option.map_some]

end

end CompilerFront.Text
