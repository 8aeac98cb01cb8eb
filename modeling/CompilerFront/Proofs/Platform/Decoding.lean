import CompilerFront.Platform
import CompilerFront.Proofs.Text.Utf8Sequences

set_option autoImplicit false

namespace CompilerFront.Text.Utf16

theorem unitsOfBytes_append {front : List UInt8} (whole : front.length % 2 = 0)
    (behind : List UInt8) :
    unitsOfBytes (front ++ behind) = unitsOfBytes front ++ unitsOfBytes behind := by
  induction front using unitsOfBytes.induct with
  | case1 low high rest ih =>
      have shorter : rest.length % 2 = 0 := by
        simp only [List.length_cons] at whole
        omega
      simp only [List.cons_append, unitsOfBytes, ih shorter]
  | case2 front short =>
      cases front with
      | nil => rfl
      | cons low rest =>
          cases rest with
          | nil => cases whole
          | cons high rest => exact absurd rfl (short low high rest)

theorem unitsOfBytes_flatMap_bytesOfUnit {units : List Nat} (small : ∀ unit ∈ units, unit < 65536)
    (behind : List UInt8) :
    unitsOfBytes (units.flatMap bytesOfUnit ++ behind) = units ++ unitsOfBytes behind := by
  induction units with
  | nil => rfl
  | cons unit units ih =>
      obtain ⟨first, others⟩ := List.forall_mem_cons.mp small
      rw [List.flatMap_cons, List.append_assoc, unitsOfBytes_bytesOfUnit first, ih others,
        List.cons_append]

/-- Units are read apart where they are no two halves of a pair. -/
theorem decodeUnits_append {first second : List Nat}
    (apart : ∀ unit ∈ first.getLast?, ∀ next ∈ second.head?,
      (isLead unit && isTrail next) = false) :
    decodeUnits (first ++ second) = decodeUnits first ++ decodeUnits second := by
  induction first using decodeUnits.induct with
  | case1 => rfl
  | case2 unit =>
      cases second with
      | nil => rfl
      | cons next rest =>
          have lone : (isLead unit && isTrail next) = false := apart unit rfl next rfl
          simp [decodeUnits, lone]
  | case3 unit next rest pair ih =>
      have rest_apart : ∀ unit ∈ rest.getLast?, ∀ next ∈ second.head?,
          (isLead unit && isTrail next) = false := by
        intro last shown
        apply apart
        cases rest with
        | nil => cases shown
        | cons other rest => simpa only [List.getLast?_cons_cons] using shown
      simp only [List.cons_append, decodeUnits, if_pos pair, ih rest_apart]
  | case4 unit next rest lone ih =>
      have rest_apart : ∀ unit ∈ (next :: rest).getLast?, ∀ next ∈ second.head?,
          (isLead unit && isTrail next) = false := by
        rwa [List.getLast?_cons_cons] at apart
      rw [List.cons_append, List.cons_append, decodeUnits, if_neg lone, ← List.cons_append,
        ih rest_apart, decodeUnits, if_neg lone, List.cons_append]

section

variable (c : Char)

theorem lt_of_mem_encodeChar : ∀ unit ∈ encodeChar c, unit < 65536 := by
  have range := scalar_range c
  simp only [encodeChar]
  split
  · rename_i single
    simpa using single
  · simp only [List.mem_cons, List.not_mem_nil, or_false]
    rintro unit (lead | trail) <;> omega

theorem isTrail_head_encodeChar : ∀ unit ∈ (encodeChar c).head?, isTrail unit = false := by
  have range := scalar_range c
  simp only [encodeChar]
  split
  all_goals
    simp [isTrail]
    omega

theorem isLead_getLast_encodeChar : ∀ unit ∈ (encodeChar c).getLast?, isLead unit = false := by
  have range := scalar_range c
  simp only [encodeChar]
  split
  · simp [isLead]
    omega
  · simp [isLead]

theorem encodeChar_ne_nil : encodeChar c ≠ [] := by
  simp only [encodeChar]
  split <;> exact List.cons_ne_nil _ _

theorem decodeUnits_encodeChar : decodeUnits (encodeChar c) = [c] := by
  have range := scalar_range c
  simp only [encodeChar]
  split
  · have solid : (isLead c.toNat || isTrail c.toNat) = false := by
      simp [isLead, isTrail]
      omega
    rw [decodeUnits, loneChar, if_neg (by rw [solid]; decide), Char.ofNat_toNat]
  · have pair : (isLead (0xD800 + (c.toNat - 0x10000) / 1024) &&
        isTrail (0xDC00 + (c.toNat - 0x10000) % 1024)) = true := by
      simp [isLead, isTrail]
      omega
    have read : 0x10000 + (0xD800 + (c.toNat - 0x10000) / 1024 - 0xD800) * 1024 +
        (0xDC00 + (c.toNat - 0x10000) % 1024 - 0xDC00) = c.toNat := by
      omega
    rw [decodeUnits, if_pos pair, pairChar, read, Char.ofNat_toNat]
    rfl

end

theorem decodeUnits_flatMap_encodeChar (text : Text) (behind : List Nat) :
    decodeUnits (text.flatMap encodeChar ++ behind) = text ++ decodeUnits behind := by
  induction text with
  | nil => rfl
  | cons c text ih =>
      have apart : ∀ unit ∈ (encodeChar c).getLast?,
          ∀ next ∈ (text.flatMap encodeChar ++ behind).head?,
            (isLead unit && isTrail next) = false := by
        intro unit last next _
        rw [isLead_getLast_encodeChar c unit last, Bool.false_and]
      rw [List.flatMap_cons, List.append_assoc, decodeUnits_append apart, ih,
        decodeUnits_encodeChar, List.singleton_append, List.cons_append]

theorem unitsOfBytes_encode_append (text : Text) (behind : List UInt8) :
    unitsOfBytes (encode text ++ behind) =
      text.flatMap encodeChar ++ unitsOfBytes behind := by
  apply unitsOfBytes_flatMap_bytesOfUnit
  intro unit inside
  obtain ⟨c, -, among⟩ := List.mem_flatMap.mp inside
  exact lt_of_mem_encodeChar c unit among

theorem decode_encode_append (text : Text) (behind : List UInt8) :
    decode (encode text ++ behind) = text ++ decode behind := by
  rw [decode, unitsOfBytes_encode_append, decodeUnits_flatMap_encodeChar, decode]

/-- Whatever bytes stand behind a text, and whatever whole units in front of it, the text is read as
it is, and they are read as they would be without it. -/
theorem decode_append_encode_append {front : List UInt8} (whole : front.length % 2 = 0)
    {text : Text} (solid : text ≠ []) (behind : List UInt8) :
    decode (front ++ encode text ++ behind) = decode front ++ text ++ decode behind := by
  have apart : ∀ unit ∈ (unitsOfBytes front).getLast?,
      ∀ next ∈ (text.flatMap encodeChar ++ unitsOfBytes behind).head?,
        (isLead unit && isTrail next) = false := by
    intro unit _ next first
    obtain ⟨c, others, rfl⟩ := List.exists_cons_of_ne_nil solid
    obtain ⟨begin, more, shape⟩ := List.exists_cons_of_ne_nil (encodeChar_ne_nil c)
    have same : next ∈ (encodeChar c).head? := by
      rw [List.flatMap_cons, shape] at first
      rwa [shape]
    rw [isTrail_head_encodeChar c next same, Bool.and_false]
  rw [List.append_assoc, decode, unitsOfBytes_append whole, unitsOfBytes_encode_append,
    decodeUnits_append apart, decodeUnits_flatMap_encodeChar, ← decode, ← decode,
    List.append_assoc]

end CompilerFront.Text.Utf16

namespace CompilerFront.Platform

theorem decode_append_encode_append (platform : Platform) (front : List UInt8)
    (aligned : platform = .windows → front.length % 2 = 0) {text : Text} (solid : text ≠ [])
    (behind : List UInt8) :
    platform.decode (front ++ platform.encode text ++ behind) =
      platform.decode front ++ text ++ platform.decode behind := by
  cases platform with
  | unix => exact Text.Utf8.decode_append_encode_append front solid behind
  | windows => exact Text.Utf16.decode_append_encode_append (aligned rfl) solid behind
  | macOs => exact Text.Utf8.decode_append_encode_append front solid behind

theorem decode_encode (platform : Platform) (text : Text) :
    platform.decode (platform.encode text) = text := by
  by_cases empty : text = []
  · subst empty
    cases platform <;> rfl
  · have whole := platform.decode_append_encode_append [] (fun _ => rfl) empty []
    rwa [List.nil_append, List.append_nil, decode_nil, List.nil_append, List.append_nil] at whole

theorem encode_eq_utf8 {platform : Platform} (bytewise : platform ≠ .windows) (text : Text) :
    platform.encode text = text.flatMap String.utf8EncodeChar := by
  have same : Text.Utf8.encode text = text.flatMap String.utf8EncodeChar := by
    rw [Text.Utf8.encode, funext Text.Utf8.encodeChar_eq_utf8EncodeChar]
  cases platform with
  | unix => exact same
  | windows => exact absurd rfl bytewise
  | macOs => exact same

/-- A text in the platform's encoding is read as it is, whatever damaged bytes stand in front of it
and behind it, and they are read as they would be without it; only on Windows those in front have to
be whole units. So reading undoes writing, on Windows even with a stray byte at the end. -/
theorem decode_damaged (platform : Platform) :
    (∀ (front : List UInt8) (text : Text) (behind : List UInt8), text ≠ [] →
      (platform = .windows → front.length % 2 = 0) →
      platform.decode (front ++ platform.encode text ++ behind) =
        platform.decode front ++ text ++ platform.decode behind) ∧
    (∀ text : Text, platform.decode (platform.encode text) = text) ∧
    (∀ (text : Text) (stray : UInt8),
      Platform.windows.decode (Platform.windows.encode text ++ [stray]) = text) ∧
    (platform ≠ .windows →
      ∀ text : Text, platform.encode text = text.flatMap String.utf8EncodeChar) := by
  refine ⟨?_, platform.decode_encode, ?_, encode_eq_utf8⟩
  · intro front text behind solid aligned
    exact platform.decode_append_encode_append front aligned solid behind
  · intro text stray
    have read : Platform.windows.decode (Platform.windows.encode text ++ [stray]) =
        text ++ Platform.windows.decode [stray] := Text.Utf16.decode_encode_append text [stray]
    have nothing : Platform.windows.decode [stray] = [] := rfl
    rw [read, nothing, List.append_nil]

/-- A character that is cut short in front of a text, and the rest of one behind it; a surrogate on
either side of a pair. -/
theorem decode_cutCharacters :
    Platform.unix.decode ([0x61, 0xE2, 0x80] ++ Platform.unix.encode ['😀', 'é'] ++ [0x98, 0x62]) =
        ['a', Text.replacementChar, '😀', 'é', Text.replacementChar, 'b'] ∧
      Platform.windows.decode
          ([0x3D, 0xD8] ++ Platform.windows.encode ['😀'] ++ [0x00, 0xDE, 0x41]) =
        [Text.replacementChar, '😀', Text.replacementChar] := by
  have bytewise := (decode_damaged .unix).1 [0x61, 0xE2, 0x80] ['😀', 'é'] [0x98, 0x62]
    (List.cons_ne_nil _ _) (fun other => nomatch other)
  have unitwise := (decode_damaged .windows).1 [0x3D, 0xD8] ['😀'] [0x00, 0xDE, 0x41]
    (List.cons_ne_nil _ _) (fun _ => rfl)
  rw [bytewise, unitwise]
  decide +kernel

end CompilerFront.Platform
