import CompilerFront.Text.Basic

set_option autoImplicit false

/-!
UTF-8. Encoding writes the one to four bytes of each character. Decoding reads one byte at a time
and never fails: every maximal run of bytes that starts a character but does not finish it, and
every byte that can start none, is read as one replacement character.
-/
namespace CompilerFront.Text

/-- What stands for bytes that are no text. -/
def replacementChar : Char := '\uFFFD'

theorem scalar_range (c : Char) : c.toNat < 0xD800 ∨ 0xDFFF < c.toNat ∧ c.toNat < 0x110000 :=
  c.valid

namespace Utf8

def encodeChar (c : Char) : List UInt8 :=
  let n := c.toNat
  if n < 0x80 then [UInt8.ofNat n]
  else if n < 0x800 then [UInt8.ofNat (0xC0 + n / 64), UInt8.ofNat (0x80 + n % 64)]
  else if n < 0x10000 then
    [UInt8.ofNat (0xE0 + n / 4096), UInt8.ofNat (0x80 + n / 64 % 64), UInt8.ofNat (0x80 + n % 64)]
  else
    [UInt8.ofNat (0xF0 + n / 262144), UInt8.ofNat (0x80 + n / 4096 % 64),
      UInt8.ofNat (0x80 + n / 64 % 64), UInt8.ofNat (0x80 + n % 64)]

def encode (text : Text) : List UInt8 := text.flatMap encodeChar

/-- Where a decoder stands between two bytes: between characters, or inside one with `missing + 1`
bytes to come, of which the next lies between `low` and `high`; `value` holds the bits read. -/
inductive State where
  | ready
  | inside (missing low high value : Nat)
  deriving DecidableEq, Repr

/-- A byte between characters. The bounds on the second byte leave out overlong forms, surrogates
and everything above the last code point. -/
def start (byte : Nat) : Text × State :=
  if byte < 0x80 then ([Char.ofNat byte], .ready)
  else if byte < 0xC2 then ([replacementChar], .ready)
  else if byte < 0xE0 then ([], .inside 0 0x80 0xBF (byte - 0xC0))
  else if byte = 0xE0 then ([], .inside 1 0xA0 0xBF 0)
  else if byte = 0xED then ([], .inside 1 0x80 0x9F 0xD)
  else if byte < 0xF0 then ([], .inside 1 0x80 0xBF (byte - 0xE0))
  else if byte = 0xF0 then ([], .inside 2 0x90 0xBF 0)
  else if byte < 0xF4 then ([], .inside 2 0x80 0xBF (byte - 0xF0))
  else if byte = 0xF4 then ([], .inside 2 0x80 0x8F 4)
  else ([replacementChar], .ready)

/-- The characters finished by a byte and the state behind it. A byte that does not continue the
character at hand gives that up and is read again between characters. -/
def step (state : State) (byte : Nat) : Text × State :=
  match state with
  | .ready => start byte
  | .inside missing low high value =>
    if low ≤ byte ∧ byte ≤ high then
      let read := value * 64 + (byte - 0x80)
      match missing with
      | 0 => ([Char.ofNat read], .ready)
      | more + 1 => ([], .inside more 0x80 0xBF read)
    else (replacementChar :: (start byte).1, (start byte).2)

/-- A character that the end of the bytes cuts short. -/
def State.atEnd : State → Text
  | .ready => []
  | .inside .. => [replacementChar]

def decodeFrom : State → List UInt8 → Text
  | state, [] => state.atEnd
  | state, byte :: rest =>
    let next := step state byte.toNat
    next.1 ++ decodeFrom next.2 rest

def decode (bytes : List UInt8) : Text := decodeFrom .ready bytes

def run (state : State) (bytes : List UInt8) : State :=
  bytes.foldl (fun state byte => (step state byte.toNat).2) state

@[simp] theorem encode_nil : encode [] = [] := rfl

@[simp] theorem encode_cons (c : Char) (rest : Text) :
    encode (c :: rest) = encodeChar c ++ encode rest := rfl

@[simp] theorem encode_append (first second : Text) :
    encode (first ++ second) = encode first ++ encode second := by
  simp [encode]

@[simp] theorem decode_nil : decode [] = [] := rfl

theorem decodeFrom_cons (state : State) (byte : UInt8) (rest : List UInt8) :
    decodeFrom state (byte :: rest) =
      (step state byte.toNat).1 ++ decodeFrom (step state byte.toNat).2 rest := rfl

/-- One replacement character for each maximal part of a character. -/
example : decode [0xF0, 0x9F, 0x98, 0x61, 0xE2, 0x80, 0xC3] =
    [replacementChar, 'a', replacementChar, replacementChar] := by decide +kernel

example : decode (encode ['a', 'é', '\u2018', '😀']) = ['a', 'é', '\u2018', '😀'] := by
  decide +kernel

end Utf8

end CompilerFront.Text
