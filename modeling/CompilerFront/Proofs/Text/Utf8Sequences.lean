import CompilerFront.Text.Utf8

set_option autoImplicit false

namespace CompilerFront.Text.Utf8

/-- The bytes of a character are those of the library's strings. -/
theorem encodeChar_eq_utf8EncodeChar (c : Char) : encodeChar c = String.utf8EncodeChar c := by
  have range := scalar_range c
  have value : c.val.toNat = c.toNat := rfl
  simp only [encodeChar, String.utf8EncodeChar, value]
  split
  · rw [if_pos (by omega)]
  · split
    · have lead : c.toNat / 64 % 32 = c.toNat / 64 := Nat.mod_eq_of_lt (by omega)
      rw [if_neg (by omega), if_pos (by omega), lead, Nat.add_comm 0xC0, Nat.add_comm 0x80]
    · split
      · have lead : c.toNat / 4096 % 16 = c.toNat / 4096 := Nat.mod_eq_of_lt (by omega)
        rw [if_neg (by omega), if_neg (by omega), if_pos (by omega), lead, Nat.add_comm 0xE0,
          Nat.add_comm 0x80, Nat.add_comm 0x80]
      · have lead : c.toNat / 262144 % 8 = c.toNat / 262144 := Nat.mod_eq_of_lt (by omega)
        rw [if_neg (by omega), if_neg (by omega), if_neg (by omega), lead, Nat.add_comm 0xF0,
          Nat.add_comm 0x80, Nat.add_comm 0x80, Nat.add_comm 0x80]

def finished : State → List UInt8 → Text
  | _, [] => []
  | state, byte :: rest =>
      (step state byte.toNat).1 ++ finished (step state byte.toNat).2 rest

theorem decodeFrom_append (state : State) (front behind : List UInt8) :
    decodeFrom state (front ++ behind) =
      finished state front ++ decodeFrom (run state front) behind := by
  induction front generalizing state with
  | nil => rfl
  | cons byte rest ih =>
      rw [List.cons_append, decodeFrom_cons, ih, finished, List.append_assoc]
      rfl

theorem decodeFrom_eq_finished (state : State) (bytes : List UInt8) :
    decodeFrom state bytes = finished state bytes ++ (run state bytes).atEnd := by
  simpa [decodeFrom] using decodeFrom_append state bytes []

/-- Inside of a character, only bytes from 0x80 to 0xBF go on with it. -/
def State.IsNarrow : State → Prop
  | .ready => True
  | .inside _ low high _ => 0x80 ≤ low ∧ high ≤ 0xBF

theorem isNarrow_ready : State.ready.IsNarrow := True.intro

theorem isNarrow_start (byte : Nat) : (start byte).2.IsNarrow := by
  unfold start
  repeat' split
  all_goals simp [State.IsNarrow]

theorem isNarrow_step (state : State) (byte : Nat) : (step state byte).2.IsNarrow := by
  cases state with
  | ready => exact isNarrow_start byte
  | inside missing low high value =>
      rw [step]
      split
      · cases missing <;> simp [State.IsNarrow]
      · exact isNarrow_start byte

theorem isNarrow_run {state : State} (narrow : state.IsNarrow) (bytes : List UInt8) :
    (run state bytes).IsNarrow := by
  induction bytes generalizing state with
  | nil => exact narrow
  | cons byte rest ih => exact ih (isNarrow_step state byte.toNat)

theorem step_of_boundary {state : State} (narrow : state.IsNarrow) {byte : Nat}
    (boundary : byte < 0x80 ∨ 0xBF < byte) :
    step state byte = (state.atEnd ++ (start byte).1, (start byte).2) := by
  cases state with
  | ready => rfl
  | inside missing low high value =>
      have outside : ¬ (low ≤ byte ∧ byte ≤ high) := by
        obtain ⟨above, below⟩ := narrow
        omega
      rw [step, if_neg outside]
      rfl

theorem decodeFrom_of_boundary {state : State} (narrow : state.IsNarrow) {byte : UInt8}
    (boundary : byte.toNat < 0x80 ∨ 0xBF < byte.toNat) (rest : List UInt8) :
    decodeFrom state (byte :: rest) = state.atEnd ++ decodeFrom .ready (byte :: rest) := by
  rw [decodeFrom_cons, decodeFrom_cons, step_of_boundary narrow boundary, List.append_assoc]
  rfl

theorem start_two {byte : Nat} (above : 0xC2 ≤ byte) (below : byte < 0xE0) :
    start byte = ([], .inside 0 0x80 0xBF (byte - 0xC0)) := by
  have notAscii : ¬ byte < 0x80 := by omega
  have notStray : ¬ byte < 0xC2 := by omega
  rw [start, if_neg notAscii, if_neg notStray, if_pos below]

theorem start_three {byte : Nat} (above : 0xE0 ≤ byte) (below : byte < 0xF0) :
    start byte =
      ([], .inside 1 (if byte = 0xE0 then 0xA0 else 0x80) (if byte = 0xED then 0x9F else 0xBF)
        (byte - 0xE0)) := by
  have notAscii : ¬ byte < 0x80 := by omega
  have notStray : ¬ byte < 0xC2 := by omega
  have notTwo : ¬ byte < 0xE0 := by omega
  rw [start, if_neg notAscii, if_neg notStray, if_neg notTwo]
  by_cases first : byte = 0xE0
  · subst first
    rfl
  · by_cases surrogate : byte = 0xED
    · subst surrogate
      rfl
    · simp [first, surrogate, below]

theorem start_four {byte : Nat} (above : 0xF0 ≤ byte) (below : byte ≤ 0xF4) :
    start byte =
      ([], .inside 2 (if byte = 0xF0 then 0x90 else 0x80) (if byte = 0xF4 then 0x8F else 0xBF)
        (byte - 0xF0)) := by
  have cases : byte = 0xF0 ∨ byte = 0xF1 ∨ byte = 0xF2 ∨ byte = 0xF3 ∨ byte = 0xF4 := by omega
  rcases cases with rfl | rfl | rfl | rfl | rfl <;> rfl

section

variable {low high value byte : Nat}

theorem decodeFrom_inside_succ {missing : Nat} (above : low ≤ byte) (below : byte ≤ high)
    (small : byte < 256) (rest : List UInt8) :
    decodeFrom (.inside (missing + 1) low high value) (UInt8.ofNat byte :: rest) =
      decodeFrom (.inside missing 0x80 0xBF (value * 64 + (byte - 0x80))) rest := by
  rw [decodeFrom_cons, UInt8.toNat_ofNat_of_lt' small, step, if_pos ⟨above, below⟩]
  rfl

theorem decodeFrom_inside_zero (above : low ≤ byte) (below : byte ≤ high) (small : byte < 256)
    (rest : List UInt8) :
    decodeFrom (.inside 0 low high value) (UInt8.ofNat byte :: rest) =
      Char.ofNat (value * 64 + (byte - 0x80)) :: decodeFrom .ready rest := by
  rw [decodeFrom_cons, UInt8.toNat_ofNat_of_lt' small, step, if_pos ⟨above, below⟩]
  rfl

theorem decodeFrom_start (small : byte < 256) (rest : List UInt8) :
    decodeFrom .ready (UInt8.ofNat byte :: rest) =
      (start byte).1 ++ decodeFrom (start byte).2 rest := by
  rw [decodeFrom_cons, UInt8.toNat_ofNat_of_lt' small]
  rfl

end

section

variable {n : Nat} (rest : List UInt8)

theorem decodeFrom_two (above : 0x80 ≤ n) (below : n < 0x800) :
    decodeFrom .ready (UInt8.ofNat (0xC0 + n / 64) :: UInt8.ofNat (0x80 + n % 64) :: rest) =
      Char.ofNat n :: decodeFrom .ready rest := by
  have read : (0xC0 + n / 64 - 0xC0) * 64 + (0x80 + n % 64 - 0x80) = n := by omega
  rw [decodeFrom_start (by omega), start_two (by omega) (by omega), List.nil_append,
    decodeFrom_inside_zero (by omega) (by omega) (by omega), read]

/-- The bounds on the second byte leave out what two bytes can hold and the surrogates. -/
theorem decodeFrom_three (above : 0x800 ≤ n) (below : n < 0x10000)
    (valid : n < 0xD800 ∨ 0xDFFF < n) :
    decodeFrom .ready (UInt8.ofNat (0xE0 + n / 4096) :: UInt8.ofNat (0x80 + n / 64 % 64) ::
        UInt8.ofNat (0x80 + n % 64) :: rest) =
      Char.ofNat n :: decodeFrom .ready rest := by
  have read : ((0xE0 + n / 4096 - 0xE0) * 64 + (0x80 + n / 64 % 64 - 0x80)) * 64 +
      (0x80 + n % 64 - 0x80) = n := by
    omega
  rw [decodeFrom_start (by omega), start_three (by omega) (by omega), List.nil_append,
    decodeFrom_inside_succ (by split <;> omega) (by split <;> omega) (by omega),
    decodeFrom_inside_zero (by omega) (by omega) (by omega), read]

/-- The bounds on the second byte leave out what three bytes can hold and what is no code point. -/
theorem decodeFrom_four (above : 0x10000 ≤ n) (below : n < 0x110000) :
    decodeFrom .ready (UInt8.ofNat (0xF0 + n / 262144) :: UInt8.ofNat (0x80 + n / 4096 % 64) ::
        UInt8.ofNat (0x80 + n / 64 % 64) :: UInt8.ofNat (0x80 + n % 64) :: rest) =
      Char.ofNat n :: decodeFrom .ready rest := by
  have read : (((0xF0 + n / 262144 - 0xF0) * 64 + (0x80 + n / 4096 % 64 - 0x80)) * 64 +
      (0x80 + n / 64 % 64 - 0x80)) * 64 + (0x80 + n % 64 - 0x80) = n := by
    omega
  rw [decodeFrom_start (by omega), start_four (by omega) (by omega), List.nil_append,
    decodeFrom_inside_succ (by split <;> omega) (by split <;> omega) (by omega),
    decodeFrom_inside_succ (by omega) (by omega) (by omega),
    decodeFrom_inside_zero (by omega) (by omega) (by omega), read]

theorem decodeFrom_encodeChar (c : Char) :
    decodeFrom .ready (encodeChar c ++ rest) = c :: decodeFrom .ready rest := by
  have range := scalar_range c
  have same : Char.ofNat c.toNat = c := Char.ofNat_toNat c
  rw [encodeChar]
  split
  · rename_i one
    rw [List.cons_append, List.nil_append, decodeFrom_start (by omega), start, if_pos one, same]
    rfl
  · rename_i notOne
    split
    · rename_i two
      refine (decodeFrom_two rest (by omega) two).trans ?_
      rw [same]
    · rename_i notTwo
      split
      · rename_i three
        refine (decodeFrom_three rest (by omega) three (by omega)).trans ?_
        rw [same]
      · rename_i notThree
        refine (decodeFrom_four rest (by omega) (by omega)).trans ?_
        rw [same]

end

theorem decodeFrom_encode (text : Text) (rest : List UInt8) :
    decodeFrom .ready (encode text ++ rest) = text ++ decodeFrom .ready rest := by
  induction text with
  | nil => rfl
  | cons c text ih =>
      rw [encode_cons, List.append_assoc, decodeFrom_encodeChar, ih, List.cons_append]

theorem exists_encodeChar_eq_cons (c : Char) :
    ∃ first rest, encodeChar c = first :: rest ∧ (first.toNat < 0x80 ∨ 0xBF < first.toNat) := by
  have range := scalar_range c
  simp only [encodeChar]
  repeat' split
  all_goals
    refine ⟨_, _, rfl, ?_⟩
    rw [UInt8.toNat_ofNat']
    omega

/-- Whatever bytes stand in front of a text and behind it, the text is read as it is, and they are
read as they would be without it. -/
theorem decode_append_encode_append (front : List UInt8) {text : Text} (solid : text ≠ [])
    (behind : List UInt8) :
    decode (front ++ encode text ++ behind) = decode front ++ text ++ decode behind := by
  obtain ⟨c, others, rfl⟩ := List.exists_cons_of_ne_nil solid
  obtain ⟨first, more, begun, boundary⟩ := exists_encodeChar_eq_cons c
  have narrow := isNarrow_run isNarrow_ready front
  have resumed : decodeFrom (run .ready front) (encode (c :: others) ++ behind) =
      (run .ready front).atEnd ++ (c :: others ++ decode behind) := by
    rw [decode, ← decodeFrom_encode, encode_cons, begun, List.cons_append, List.cons_append,
      decodeFrom_of_boundary narrow boundary]
  calc decode (front ++ encode (c :: others) ++ behind)
      = finished .ready front ++ ((run .ready front).atEnd ++ (c :: others ++ decode behind)) := by
        rw [List.append_assoc, decode, decodeFrom_append, resumed]
    _ = decode front ++ (c :: others) ++ decode behind := by
        rw [← List.append_assoc, ← decodeFrom_eq_finished, ← decode, List.append_assoc]

end CompilerFront.Text.Utf8
