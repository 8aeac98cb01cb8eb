import CompilerFront.Text.Basic

set_option autoImplicit false

namespace CompilerFront.Text

theorem blanks_append_trimStart (text : Text) :
    ∃ blanks : Text, text = blanks ++ trimStart text ∧ isAllBlank blanks = true :=
  ⟨text.takeWhile isBlank, List.takeWhile_append_dropWhile.symm, List.all_takeWhile⟩

/-- Trimming takes blanks away at both ends and nothing else. -/
theorem exists_blanks_trim (text : Text) :
    ∃ left right : Text, text = left ++ trim text ++ right ∧ isAllBlank left = true ∧
      isAllBlank right = true := by
  obtain ⟨left, leftSame, leftBlank⟩ := blanks_append_trimStart text
  obtain ⟨right, rightSame, rightBlank⟩ := trimEnd_append_blanks (trimStart text)
  refine ⟨left, right, ?_, leftBlank, rightBlank⟩
  rw [List.append_assoc, trim, ← rightSame]
  exact leftSame

theorem trim_infix (text : Text) : trim text <:+: text := by
  obtain ⟨left, right, same, -⟩ := exists_blanks_trim text
  exact ⟨left, right, same.symm⟩

theorem mem_trimStart {c : Char} {text : Text} (inside : c ∈ text) (solid : isBlank c = false) :
    c ∈ trimStart text := by
  obtain ⟨blanks, same, blank⟩ := blanks_append_trimStart text
  rw [same, List.mem_append] at inside
  refine inside.resolve_left fun member => ?_
  rw [List.all_eq_true.mp blank c member] at solid
  cases solid

theorem mem_trimEnd {c : Char} {text : Text} (inside : c ∈ text) (solid : isBlank c = false) :
    c ∈ trimEnd text := by
  obtain ⟨blanks, same, blank⟩ := trimEnd_append_blanks text
  rw [same, List.mem_append] at inside
  refine inside.resolve_right fun member => ?_
  rw [List.all_eq_true.mp blank c member] at solid
  cases solid

theorem mem_trim {c : Char} {text : Text} (inside : c ∈ text) (solid : isBlank c = false) :
    c ∈ trim text :=
  mem_trimEnd (mem_trimStart inside solid) solid

/-- Something that survives keeps everything in front of it. -/
theorem trimEnd_append (first second : Text) :
    trimEnd (first ++ second) =
      if (trimEnd second).isEmpty then trimEnd first else first ++ trimEnd second := by
  induction first with
  | nil =>
      rw [List.nil_append, List.nil_append]
      cases trimEnd second <;> rfl
  | cons c first ih =>
      rw [List.cons_append, trimEnd_cons, ih, trimEnd_cons]
      cases shape : trimEnd second with
      | nil => rfl
      | cons d rest => simp

theorem trimEnd_of_isAllBlank {blanks : Text} (blank : isAllBlank blanks = true) :
    trimEnd blanks = [] := by
  induction blanks with
  | nil => rfl
  | cons c blanks ih =>
      simp only [isAllBlank, List.all_cons, Bool.and_eq_true] at blank
      rw [trimEnd_cons, ih blank.2, blank.1]
      rfl

theorem trimEnd_append_of_isAllBlank {blanks : Text} (blank : isAllBlank blanks = true)
    (text : Text) : trimEnd (text ++ blanks) = trimEnd text := by
  rw [trimEnd_append, trimEnd_of_isAllBlank blank]
  rfl

/-- A text that ends with no blank keeps everything in front of it. -/
theorem trimEnd_append_of_trimmed {first : Text} (trimmed : trimEnd first = first)
    (second : Text) : trimEnd (first ++ second) = first ++ trimEnd second := by
  rw [trimEnd_append, trimmed]
  cases trimEnd second with
  | nil => simp
  | cons c rest => rfl

theorem trimEnd_concat_of_not_isBlank {c : Char} (solid : isBlank c = false) (text : Text) :
    trimEnd (text ++ [c]) = text ++ [c] := by
  rw [trimEnd_append]
  simp [trimEnd_cons, solid]

theorem length_trimEnd_le (text : Text) : (trimEnd text).length ≤ text.length := by
  obtain ⟨blanks, same, -⟩ := trimEnd_append_blanks text
  have lengths := congrArg List.length same
  rw [List.length_append] at lengths
  omega

theorem length_trimStart_le (text : Text) : (trimStart text).length ≤ text.length := by
  obtain ⟨blanks, same, -⟩ := blanks_append_trimStart text
  have lengths := congrArg List.length same
  rw [List.length_append] at lengths
  omega

theorem trimStart_eq_self_iff {text : Text} :
    trimStart text = text ↔ ∀ c ∈ text.head?, isBlank c = false := by
  cases text with
  | nil => simp
  | cons c rest =>
      rw [trimStart_cons, List.head?_cons]
      cases blank : isBlank c with
      | false => simp [blank]
      | true =>
          have shorter := length_trimStart_le rest
          have changed : trimStart rest ≠ c :: rest := by
            intro same
            rw [same, List.length_cons] at shorter
            omega
          simp [changed, blank]

theorem trimEnd_eq_self_iff {text : Text} :
    trimEnd text = text ↔ ∀ c ∈ text.getLast?, isBlank c = false := by
  rcases text.eq_nil_or_concat with rfl | ⟨text, c, rfl⟩
  · simp
  · rw [List.concat_eq_append, List.getLast?_concat]
    cases blank : isBlank c with
    | false => simp [trimEnd_concat_of_not_isBlank blank, blank]
    | true =>
        have shorter := length_trimEnd_le text
        have changed : trimEnd (text ++ [c]) ≠ text ++ [c] := by
          intro same
          rw [trimEnd_append] at same
          simp only [trimEnd_cons, trimEnd_nil, List.isEmpty_nil, blank, Bool.and_self,
            ↓reduceIte] at same
          rw [same, List.length_append, List.length_singleton] at shorter
          omega
        simp [changed, blank]

theorem trim_eq_self_iff {text : Text} :
    trim text = text ↔
      (∀ c ∈ text.head?, isBlank c = false) ∧ ∀ c ∈ text.getLast?, isBlank c = false := by
  rw [← trimStart_eq_self_iff, ← trimEnd_eq_self_iff]
  constructor
  · intro same
    have start : trimStart text = text := by
      obtain ⟨blanks, parts, -⟩ := blanks_append_trimStart text
      have shorter := length_trimEnd_le (trimStart text)
      rw [← trim, same, parts, List.length_append] at shorter
      have none_left : blanks = [] := List.eq_nil_of_length_eq_zero (by
        rw [← parts] at shorter
        omega)
      rw [none_left, List.nil_append] at parts
      exact parts.symm
    refine ⟨start, ?_⟩
    rw [trim, start] at same
    exact same
  · rintro ⟨start, stop⟩
    rw [trim, start, stop]

theorem head?_trimStart (text : Text) : ∀ c ∈ (trimStart text).head?, isBlank c = false := by
  induction text with
  | nil => simp
  | cons c rest ih =>
      rw [trimStart_cons]
      split
      · exact ih
      · rename_i solid
        simpa using solid

theorem getLast?_trimEnd (text : Text) : ∀ c ∈ (trimEnd text).getLast?, isBlank c = false := by
  induction text with
  | nil => simp
  | cons c rest ih =>
      rw [trimEnd_cons]
      split
      · simp
      · rename_i solid
        cases shape : trimEnd rest with
        | nil =>
            rw [shape] at solid
            simpa using solid
        | cons d others =>
            rw [List.getLast?_cons_cons, ← shape]
            exact ih

theorem head?_trim (text : Text) : ∀ c ∈ (trim text).head?, isBlank c = false := by
  intro c head
  obtain ⟨blanks, same, -⟩ := trimEnd_append_blanks (trimStart text)
  apply head?_trimStart text c
  rw [same, List.head?_append]
  rw [trim] at head
  rw [Option.mem_def.mp head]
  rfl

theorem getLast?_trim (text : Text) : ∀ c ∈ (trim text).getLast?, isBlank c = false :=
  getLast?_trimEnd (trimStart text)

theorem trim_of_solid {text : Text} (solid : ∀ c ∈ text, isBlank c = false) : trim text = text :=
  trim_eq_self_iff.mpr
    ⟨fun c first => solid c (List.mem_of_head? first),
      fun c last => solid c (List.mem_of_getLast? last)⟩

theorem trim_append_append {first last : Text} (starts : first ≠ [] ∧ trim first = first)
    (ends : last ≠ [] ∧ trim last = last) (middle : Text) :
    trim (first ++ (middle ++ last)) = first ++ (middle ++ last) := by
  obtain ⟨c, front, rfl⟩ := List.exists_cons_of_ne_nil starts.1
  obtain ⟨d, back⟩ := Option.isSome_iff_exists.mp (List.getLast?_isSome.mpr ends.1)
  have solid := (trim_eq_self_iff.mp ends.2).2
  rw [back] at solid
  refine trim_eq_self_iff.mpr ⟨(trim_eq_self_iff.mp starts.2).1, ?_⟩
  rw [List.getLast?_append, List.getLast?_append, back]
  exact solid

theorem trimStart_append_of_isAllBlank {blanks : Text} (blank : isAllBlank blanks = true)
    (text : Text) : trimStart (blanks ++ text) = trimStart text := by
  induction blanks with
  | nil => rfl
  | cons c blanks ih =>
      simp only [isAllBlank, List.all_cons, Bool.and_eq_true] at blank
      rw [List.cons_append, trimStart_cons, blank.1, if_pos rfl]
      exact ih blank.2

/-- Something that is kept at the start keeps everything behind it. -/
theorem trimStart_append {first : Text} (started : trimStart first ≠ []) (second : Text) :
    trimStart (first ++ second) = trimStart first ++ second := by
  obtain ⟨blanks, same, blank⟩ := blanks_append_trimStart first
  have solid : trimStart (trimStart first ++ second) = trimStart first ++ second := by
    obtain ⟨c, rest, shape⟩ := List.exists_cons_of_ne_nil started
    have head := head?_trimStart first
    rw [shape] at head ⊢
    exact trimStart_eq_self_iff.mpr head
  have whole : first ++ second = blanks ++ (trimStart first ++ second) := by
    rw [← List.append_assoc, ← same]
  rw [whole, trimStart_append_of_isAllBlank blank, solid]

/-- A word at the end of a text is there when the start is trimmed. -/
theorem suffix_trimStart_iff {word : Text} (solid : ∀ c ∈ word, isBlank c = false) (text : Text) :
    word <:+ trimStart text ↔ word <:+ text := by
  obtain ⟨blanks, same, blank⟩ := blanks_append_trimStart text
  rw [same, trimStart_append_of_isAllBlank blank]
  have again : trimStart (trimStart text) = trimStart text :=
    trimStart_eq_self_iff.mpr (head?_trimStart text)
  rw [again]
  clear same again
  induction blanks with
  | nil => rfl
  | cons c blanks ih =>
      simp only [isAllBlank, List.all_cons, Bool.and_eq_true] at blank
      have other : word ≠ c :: (blanks ++ trimStart text) := by
        rintro rfl
        have kept := solid c List.mem_cons_self
        rw [blank.1] at kept
        cases kept
      rw [List.cons_append, List.suffix_cons_iff, or_iff_right other]
      exact ih blank.2

/-- What stands in front of something that starts with no blank is trimmed at its start only. -/
theorem trimStart_append_of_trimmed {second : Text} (trimmed : trimStart second = second)
    (first : Text) : trimStart (first ++ second) = trimStart first ++ second := by
  by_cases started : trimStart first = []
  · obtain ⟨blanks, same, blank⟩ := blanks_append_trimStart first
    rw [started, List.append_nil] at same
    rw [started, same, trimStart_append_of_isAllBlank blank, trimmed, List.nil_append]
  · exact trimStart_append started second

/-- Around a trimmed text nothing but the outer ends is trimmed. -/
theorem trim_append_append_of_trimmed {middle : Text} (solid : middle ≠ [])
    (trimmed : trim middle = middle) (front back : Text) :
    trim (front ++ (middle ++ back)) = trimStart front ++ (middle ++ trimEnd back) := by
  obtain ⟨starts, ends⟩ := trim_eq_self_iff.mp trimmed
  have begun : trimStart (middle ++ back) = middle ++ back := by
    obtain ⟨c, rest, rfl⟩ := List.exists_cons_of_ne_nil solid
    exact trimStart_eq_self_iff.mpr starts
  have ended : trimEnd (middle ++ back) = middle ++ trimEnd back :=
    trimEnd_append_of_trimmed (trimEnd_eq_self_iff.mpr ends) back
  rw [trim, trimStart_append_of_trimmed begun, trimEnd_append, ended, if_neg]
  simp [solid]

theorem trim_append_of_isAllBlank {blanks : Text} (blank : isAllBlank blanks = true)
    (text : Text) : trim (blanks ++ text) = trim text := by
  rw [trim, trimStart_append_of_isAllBlank blank, trim]

theorem trim_eq_nil_iff {text : Text} : trim text = [] ↔ isAllBlank text = true := by
  constructor
  · intro empty
    refine List.all_eq_true.mpr fun c inside => ?_
    cases solid : isBlank c with
    | true => rfl
    | false =>
        have kept := mem_trim inside solid
        rw [empty] at kept
        cases kept
  · intro blank
    have whole := trim_append_of_isAllBlank blank []
    rwa [List.append_nil, trim_nil] at whole

theorem words_append_of_isAllBlank {blanks : Text} (blank : isAllBlank blanks = true)
    (text : Text) : words (blanks ++ text) = words text := by
  induction blanks with
  | nil => rfl
  | cons c blanks ih =>
      simp only [isAllBlank, List.all_cons, Bool.and_eq_true] at blank
      rw [List.cons_append, words_cons_blank blank.1]
      exact ih blank.2

theorem trim_cons_of_isBlank {c : Char} (blank : isBlank c = true) (text : Text) :
    trim (c :: text) = trim text := by
  rw [trim, trimStart_cons, blank]
  rfl

end CompilerFront.Text
