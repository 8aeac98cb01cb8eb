set_option autoImplicit false

namespace CompilerFront

/-- A text is the list of its characters, so every scan is a recursion on a list. -/
abbrev Text := List Char

instance : Coe String Text := ⟨String.toList⟩

namespace Text

/-- What is asked of all characters in a text is decided along the text, not along all characters
there are. -/
instance (priority := high) decidableForallMem (text : Text) (p : Char → Prop) [DecidablePred p] :
    Decidable (∀ c ∈ text, p c) := List.decidableBAll p text

instance (priority := high) decidableForallMemOption (neighbour : Option Char) (p : Char → Prop)
    [DecidablePred p] : Decidable (∀ c ∈ neighbour, p c) := Option.decidableForallMem neighbour

def decimal (n : Int) : Text :=
  if n < 0 then '-' :: Nat.toDigits 10 n.natAbs else Nat.toDigits 10 n.natAbs

def isDigit (c : Char) : Bool := c.isDigit

/-- The value of a text read as decimal digits, most significant first. -/
def decimalValue (digits : Text) : Nat :=
  digits.foldl (fun value c => 10 * value + (c.toNat - '0'.toNat)) 0

/-- A non-empty text of ASCII digits. -/
def isNumeral (text : Text) : Bool := !text.isEmpty && text.all isDigit

/-- Identifier characters are the ASCII letters, the ASCII digits and the underscore. -/
def isIdentifierChar (c : Char) : Bool := c.isAlphanum || c == '_'

def isHexDigit (c : Char) : Bool :=
  c.isDigit || ('a' ≤ c && c ≤ 'f') || ('A' ≤ c && c ≤ 'F')

def digitValue (digit : Char) : Nat :=
  if digit.isDigit then digit.toNat - '0'.toNat else digit.toLower.toNat - 'a'.toNat + 10

/-- ASCII letters in lower case, every other character unchanged. -/
def toLower (text : Text) : Text := text.map Char.toLower

@[simp] theorem toLower_nil : toLower [] = [] := rfl

@[simp] theorem toLower_cons (c : Char) (rest : Text) :
    toLower (c :: rest) = c.toLower :: toLower rest := rfl

@[simp] theorem isNumeral_nil : isNumeral [] = false := rfl

theorem isDigit_of_mem {numeral : Text} (numeric : isNumeral numeral = true) {c : Char}
    (inside : c ∈ numeral) : isDigit c = true :=
  List.all_eq_true.mp (Bool.and_eq_true_iff.mp numeric).2 c inside

theorem ne_nil_of_isNumeral {numeral : Text} (numeric : isNumeral numeral = true) :
    numeral ≠ [] := by
  rintro rfl
  cases numeric

/-- The code points with the property White_Space, as closed ranges. -/
def blankRanges : List (Nat × Nat) :=
  [(0x09, 0x0D), (0x20, 0x20), (0x85, 0x85), (0xA0, 0xA0), (0x1680, 0x1680), (0x2000, 0x200A),
    (0x2028, 0x2029), (0x202F, 0x202F), (0x205F, 0x205F), (0x3000, 0x3000)]

def isBlank (c : Char) : Bool :=
  blankRanges.any fun range => range.1 ≤ c.toNat && c.toNat ≤ range.2

/-- There are 25 blanks. -/
example : (blankRanges.map fun range => range.2 + 1 - range.1).sum = 25 := by decide

theorem not_isBlank_of_isIdentifierChar {c : Char} (isChar : isIdentifierChar c = true) :
    isBlank c = false := by
  have ranges : (decide (65 ≤ c.val ∧ c.val ≤ 90) || (97 ≤ c.val && c.val ≤ 122) ||
      (48 ≤ c.val && c.val ≤ 57) || c == '_') = true := isChar
  simp only [Bool.or_eq_true, Bool.and_eq_true, decide_eq_true_eq, UInt32.le_iff_toNat_le,
    beq_iff_eq] at ranges
  rcases ranges with alphanumeric | rfl
  · have bounds : (65 ≤ c.toNat ∧ c.toNat ≤ 90 ∨ 97 ≤ c.toNat ∧ c.toNat ≤ 122) ∨
        48 ≤ c.toNat ∧ c.toNat ≤ 57 := alphanumeric
    simp [isBlank, blankRanges]
    omega
  · decide

def trimStart (text : Text) : Text := text.dropWhile isBlank

/-- A character survives at the end only if something kept stands behind it or it is no blank. -/
def trimEnd (text : Text) : Text :=
  text.foldr (fun c kept => if kept.isEmpty && isBlank c then [] else c :: kept) []

def trim (text : Text) : Text := trimEnd (trimStart text)

@[simp] theorem trimStart_nil : trimStart [] = [] := rfl

theorem trimStart_cons (c : Char) (rest : Text) :
    trimStart (c :: rest) = if isBlank c then trimStart rest else c :: rest := by
  simp [trimStart, List.dropWhile_cons]

@[simp] theorem trimEnd_nil : trimEnd [] = [] := rfl

theorem trimEnd_cons (c : Char) (rest : Text) :
    trimEnd (c :: rest) =
      if (trimEnd rest).isEmpty && isBlank c then [] else c :: trimEnd rest := rfl

@[simp] theorem trim_nil : trim [] = [] := rfl

/-- Trimming the end splits off a tail of blanks. -/
theorem trimEnd_append_blanks (text : Text) :
    ∃ blanks : Text, text = trimEnd text ++ blanks ∧ blanks.all isBlank = true := by
  induction text with
  | nil => exact ⟨[], rfl, rfl⟩
  | cons c rest ih =>
    obtain ⟨blanks, same, all⟩ := ih
    rw [trimEnd_cons]
    split
    · rename_i gone
      simp only [Bool.and_eq_true, List.isEmpty_iff] at gone
      refine ⟨c :: rest, rfl, ?_⟩
      rw [gone.1, List.nil_append] at same
      simp only [List.all_cons, gone.2, Bool.true_and, same, all]
    · exact ⟨blanks, by rw [List.cons_append, ← same], all⟩

/-- One character read from the right: a blank closes the word that began behind it. -/
def wordStep (c : Char) (state : Text × List Text) : Text × List Text :=
  if isBlank c then ([], if state.1.isEmpty then state.2 else state.1 :: state.2)
  else (c :: state.1, state.2)

/-- The maximal runs of characters that are no blanks, in order. -/
def words (text : Text) : List Text :=
  let state := text.foldr wordStep ([], [])
  if state.1.isEmpty then state.2 else state.1 :: state.2

@[simp] theorem words_nil : words [] = [] := rfl

theorem words_cons_blank {c : Char} (h : isBlank c = true) (rest : Text) :
    words (c :: rest) = words rest := by
  simp [words, wordStep, h]

def isAllBlank (text : Text) : Bool := text.all isBlank

theorem words_eq_nil_of_isAllBlank {text : Text} (h : isAllBlank text = true) :
    words text = [] := by
  induction text with
  | nil => rfl
  | cons c rest ih =>
    simp only [isAllBlank, List.all_cons, Bool.and_eq_true] at h
    rw [words_cons_blank h.1, ih h.2]

/-- Puts a character in front of the first piece, which is started if there is none. -/
def consHead (c : Char) : List Text → List Text
  | [] => [[c]]
  | piece :: pieces => (c :: piece) :: pieces

/-- The text before and the text behind the first occurrence of `pattern`. -/
def cut? (pattern : Text) : Text → Option (Text × Text)
  | [] => if pattern.isEmpty then some ([], []) else none
  | c :: rest =>
    if pattern.isPrefixOf (c :: rest) then some ([], (c :: rest).drop pattern.length)
    else (cut? pattern rest).map fun parts => (c :: parts.1, parts.2)

def occursIn (pattern text : Text) : Bool := (cut? pattern text).isSome

/-- The lines of a text. A line feed ends a line, together with one carriage return right before
it; what follows the last line feed is a line unless it is empty. -/
def lines : Text → List Text
  | [] => []
  | c :: rest =>
    if c = '\n' then [] :: lines rest
    else if c = '\r' ∧ rest.head? = some '\n' then lines rest
    else consHead c (lines rest)

/-- The parts in order, with `separator` between neighbours. -/
def joinWith (separator : Text) (parts : List Text) : Text := separator.intercalate parts

@[simp] theorem joinWith_nil (separator : Text) : joinWith separator [] = [] := rfl

@[simp] theorem joinWith_singleton (separator part : Text) :
    joinWith separator [part] = part :=
  List.intercalate_singleton

theorem joinWith_cons_cons (separator first second : Text) (others : List Text) :
    joinWith separator (first :: second :: others) =
      first ++ separator ++ joinWith separator (second :: others) :=
  List.intercalate_cons_cons

/-- Text at the end of a separator may as well stand in front of the parts it joins. -/
theorem joinWith_append_separator (separator lead first : Text) (others : List Text) :
    joinWith (separator ++ lead) (first :: others) =
      joinWith separator (first :: others.map (lead ++ ·)) := by
  induction others generalizing first with
  | nil => rw [List.map_nil, joinWith_singleton, joinWith_singleton]
  | cons next others ih =>
    rw [joinWith_cons_cons, ih, List.map_cons, joinWith_cons_cons]
    cases others with
    | nil => simp only [List.map_nil, joinWith_singleton, List.append_assoc]
    | cons other others =>
      simp only [List.map_cons, joinWith_cons_cons, List.append_assoc]

theorem joinWith_append (separator : Text) {first second : List Text} (firstStarted : first ≠ [])
    (secondStarted : second ≠ []) :
    joinWith separator (first ++ second) =
      joinWith separator first ++ separator ++ joinWith separator second := by
  induction first with
  | nil => exact absurd rfl firstStarted
  | cons part first ih =>
    cases first with
    | nil =>
      obtain ⟨other, others, rfl⟩ := List.exists_cons_of_ne_nil secondStarted
      rw [List.singleton_append, joinWith_cons_cons, joinWith_singleton]
    | cons next first =>
      rw [List.cons_append, List.cons_append, joinWith_cons_cons, ← List.cons_append,
        ih (List.cons_ne_nil next first), joinWith_cons_cons]
      simp only [List.append_assoc]

theorem head?_joinWith (separator : Text) {part : Text} (solid : part ≠ []) (others : List Text) :
    (joinWith separator (part :: others)).head? = part.head? := by
  obtain ⟨c, rest, rfl⟩ := List.exists_cons_of_ne_nil solid
  cases others with
  | nil => rfl
  | cons other others =>
    rw [joinWith_cons_cons]
    rfl

theorem joinWith_eq_nil_iff {separator : Text} {parts : List Text}
    (solid : ∀ part ∈ parts, part ≠ []) : joinWith separator parts = [] ↔ parts = [] := by
  constructor
  · intro empty
    cases parts with
    | nil => rfl
    | cons part parts =>
      have started := head?_joinWith separator (solid part List.mem_cons_self) parts
      rw [empty] at started
      exact absurd (List.head?_eq_none_iff.mp started.symm) (solid part List.mem_cons_self)
  · rintro rfl
    rfl

theorem getLast?_joinWith_concat (separator : Text) (others : List Text) {part : Text}
    (solid : part ≠ []) :
    (joinWith separator (others ++ [part])).getLast? = part.getLast? := by
  induction others with
  | nil => rw [List.nil_append, joinWith_singleton]
  | cons other others ih =>
    have started : others ++ [part] ≠ [] := by simp
    obtain ⟨first, rest, shape⟩ := List.exists_cons_of_ne_nil started
    obtain ⟨c, shown⟩ := Option.isSome_iff_exists.mp (List.getLast?_isSome.mpr solid)
    rw [shape, shown] at ih
    rw [List.cons_append, shape, joinWith_cons_cons, List.getLast?_append, ih, shown]
    rfl

theorem append_of_cut? {pattern text before behind : Text}
    (h : cut? pattern text = some (before, behind)) : text = before ++ pattern ++ behind := by
  induction text generalizing before with
  | nil =>
    simp only [cut?, List.isEmpty_iff] at h
    split at h <;> simp_all
  | cons c rest ih =>
    simp only [cut?] at h
    split at h
    · rename_i shown
      obtain ⟨tail, same⟩ := List.isPrefixOf_iff_prefix.mp shown
      simp only [Option.some.injEq, Prod.mk.injEq] at h
      rw [← h.1, ← h.2, List.nil_append, ← same, List.drop_left]
    · obtain ⟨⟨front, tail⟩, found, same⟩ := Option.map_eq_some_iff.mp h
      simp only [Prod.mk.injEq] at same
      obtain ⟨rfl, rfl⟩ := same
      rw [List.cons_append, List.cons_append, ← ih found]

theorem cut?_of_not_mem {c : Char} {text : Text} (absent : c ∉ text) : cut? [c] text = none := by
  induction text with
  | nil => rfl
  | cons d rest ih =>
    have other : c ≠ d := List.ne_of_not_mem_cons absent
    have apart : [c].isPrefixOf (d :: rest) = false := by
      simp [List.isPrefixOf, other]
    rw [cut?, apart, ih (List.not_mem_of_not_mem_cons absent)]
    rfl

theorem cut?_append_cons {c : Char} {before : Text} (absent : c ∉ before) (behind : Text) :
    cut? [c] (before ++ c :: behind) = some (before, behind) := by
  induction before with
  | nil => simp [cut?, List.isPrefixOf]
  | cons d before ih =>
    have other : c ≠ d := List.ne_of_not_mem_cons absent
    have apart : [c].isPrefixOf (d :: (before ++ c :: behind)) = false := by
      simp [List.isPrefixOf, other]
    rw [List.cons_append, cut?, apart, ih (List.not_mem_of_not_mem_cons absent)]
    rfl

@[simp] theorem lines_nil : lines [] = [] := rfl

end Text

end CompilerFront
