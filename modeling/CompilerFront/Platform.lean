import CompilerFront.Path
import CompilerFront.Text.Utf8

set_option autoImplicit false

namespace CompilerFront

namespace Text.Utf16

/-- The units of one character: the code point itself, or a pair of surrogates. -/
def encodeChar (c : Char) : List Nat :=
  let n := c.toNat
  if n < 0x10000 then [n] else [0xD800 + (n - 0x10000) / 1024, 0xDC00 + (n - 0x10000) % 1024]

def bytesOfUnit (unit : Nat) : List UInt8 := [UInt8.ofNat (unit % 256), UInt8.ofNat (unit / 256)]

def encode (text : Text) : List UInt8 := (text.flatMap encodeChar).flatMap bytesOfUnit

def isLead (unit : Nat) : Bool := 0xD800 ≤ unit && unit < 0xDC00

def isTrail (unit : Nat) : Bool := 0xDC00 ≤ unit && unit < 0xE000

def pairChar (lead trail : Nat) : Char :=
  Char.ofNat (0x10000 + (lead - 0xD800) * 1024 + (trail - 0xDC00))

/-- The character of a unit that is not the first of a pair. -/
def loneChar (unit : Nat) : Char :=
  if isLead unit || isTrail unit then replacementChar else Char.ofNat unit

def decodeUnits : List Nat → Text
  | [] => []
  | [unit] => [loneChar unit]
  | unit :: next :: rest =>
    if isLead unit && isTrail next then pairChar unit next :: decodeUnits rest
    else loneChar unit :: decodeUnits (next :: rest)

def unitsOfBytes : List UInt8 → List Nat
  | low :: high :: rest => (low.toNat + 256 * high.toNat) :: unitsOfBytes rest
  | _ => []

def decode (bytes : List UInt8) : Text := decodeUnits (unitsOfBytes bytes)

@[simp] theorem encode_nil : encode [] = [] := rfl

@[simp] theorem decode_nil : decode [] = [] := rfl

theorem unitsOfBytes_bytesOfUnit {unit : Nat} (h : unit < 65536) (rest : List UInt8) :
    unitsOfBytes (bytesOfUnit unit ++ rest) = unit :: unitsOfBytes rest := by
  simp only [bytesOfUnit, List.cons_append, List.nil_append, unitsOfBytes, UInt8.toNat_ofNat']
  congr 1
  omega

example : decode [0x3D, 0xD8, 0x61, 0x00, 0x3D, 0xD8, 0x00, 0xDE, 0x41] =
    [replacementChar, 'a', '😀'] := by decide +kernel

end Text.Utf16

inductive Platform where
  | unix
  | windows
  | macOs
  deriving DecidableEq, Repr

/-- The operating systems that a target may name, as far as they are told apart. -/
inductive OperatingSystem where
  | windows
  | darwin
  | macOSX
  | other (name : Text)
  deriving DecidableEq, Repr

namespace Platform

/-- Every system but Windows and the two names of macOS counts as Unix. -/
def ofSystem : OperatingSystem → Platform
  | .windows => .windows
  | .darwin | .macOSX => .macOs
  | .other _ => .unix

def host : Platform := ofSystem (.other "linux")

/-- The extension of a linked program, where it has one. -/
def programSuffix? : Platform → Option Text
  | .unix => none
  | .windows => some "exe"
  | .macOs => some "app"

/-- The path that starts a freshly built program from the working directory. A relative path is
put below `.`, so that it holds a separator and is not searched for; Windows needs no such
step. -/
def launchPath (platform : Platform) (program : Path) : Path :=
  if platform = .windows ∨ program.isAbsolute then program else ⟨"./" ++ program.text⟩

/-- The text of captured output: UTF-16 on Windows, UTF-8 elsewhere. -/
def decode : Platform → List UInt8 → Text
  | .windows => Text.Utf16.decode
  | _ => Text.Utf8.decode

def encode : Platform → Text → List UInt8
  | .windows => Text.Utf16.encode
  | _ => Text.Utf8.encode

theorem launchPath_of_isAbsolute (platform : Platform) {program : Path}
    (h : program.isAbsolute = true) : platform.launchPath program = program := by
  simp [launchPath, h]

theorem launchPath_of_relative {platform : Platform} {program : Path} (h : platform ≠ .windows)
    (relative : program.isAbsolute = false) :
    platform.launchPath program = ⟨"./" ++ program.text⟩ := by
  simp [launchPath, h, relative]

@[simp] theorem decode_nil (platform : Platform) : platform.decode [] = [] := by
  cases platform <;> rfl

end Platform

end CompilerFront
