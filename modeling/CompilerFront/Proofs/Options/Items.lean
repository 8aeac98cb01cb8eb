import CompilerFront.Options.Parse
import CompilerFront.Options.Basic
import Mathlib.Data.List.Induction

set_option autoImplicit false

namespace CompilerFront

namespace OptionKey

/-- The arguments that give an option and nothing else. -/
def spellings (key : OptionKey) : List Text :=
  key.form.short.toList.map (fun short => ['-', short]) ++
    key.form.long.toList.map fun long => '-' :: '-' :: long

theorem names_plain :
    all.all (fun key =>
      key.form.short.all (fun short => short ≠ '-') &&
        key.form.long.all fun long => long ≠ [] && !long.contains '=') = true := by
  decide +kernel

/-- An option is spelled with a name under which it is found, and which holds nothing that ends a
name. -/
theorem of_mem_spellings {key : OptionKey} {spelling : Text} (spelled : spelling ∈ key.spellings) :
    (∃ short, spelling = ['-', short] ∧ short ≠ '-' ∧ ofShort? short = some key) ∨
      ∃ long, spelling = '-' :: '-' :: long ∧ long ≠ [] ∧ '=' ∉ long ∧
        ofLong? long = some key := by
  have plain := List.all_eq_true.mp names_plain key (mem_all key)
  obtain ⟨shortPlain, longPlain⟩ := Bool.and_eq_true_iff.mp plain
  rcases List.mem_append.mp spelled with inShort | inLong
  · obtain ⟨short, named, rfl⟩ := List.mem_map.mp inShort
    rw [Option.mem_toList] at named
    refine .inl ⟨short, rfl, ?_, ofShort?_form named⟩
    simpa [named] using shortPlain
  · obtain ⟨long, named, rfl⟩ := List.mem_map.mp inLong
    rw [Option.mem_toList] at named
    have both : long ≠ [] ∧ '=' ∉ long := by simpa [named] using longPlain
    exact .inr ⟨long, rfl, both.1, both.2, ofLong?_form named⟩

end OptionKey

namespace Options

/-- Of the texts that start with a dash only the dash alone is plain. -/
def Plain (text : Text) : Prop := text.head? = some '-' → text = ['-']

theorem Plain.head_ne {c d : Char} {rest : Text} (plain : Plain (c :: d :: rest)) : c ≠ '-' := by
  rintro rfl
  cases plain rfl

/-- The values that an option takes from the argument behind it. -/
def Takes : ValueOption → Text → Prop
  | .language, value => value ∈ Language.names
  | .output, value => value ≠ [] ∧ Plain value
  | .passthrough, value => value ≠ separator
  | .library, value => Plain value

instance (text : Text) : Decidable (Plain text) :=
  inferInstanceAs (Decidable (text.head? = some '-' → text = ['-']))

instance (option : ValueOption) (value : Text) : Decidable (Takes option value) :=
  match option with
  | .language => inferInstanceAs (Decidable (value ∈ Language.names))
  | .output => inferInstanceAs (Decidable (value ≠ [] ∧ Plain value))
  | .passthrough => inferInstanceAs (Decidable (value ≠ separator))
  | .library => inferInstanceAs (Decidable (Plain value))

def mayRepeat : ValueOption → Bool
  | .language | .output => false
  | .passthrough | .library => true

/-- What one or two arguments give. Options are given in one of their spellings. -/
inductive Item where
  | switch (given : Switch) (spelling : Text)
  | simplify (spelling : Text)
  | value (option : ValueOption) (spelling text : Text)
  | operand (text : Text)
  deriving DecidableEq, Repr

namespace Item

def arguments : Item → List Text
  | .switch _ spelling => [spelling]
  | .simplify spelling => [spelling]
  | .value _ spelling text => [spelling, text]
  | .operand text => [text]

def Proper : Item → Prop
  | .switch given spelling => spelling ∈ (OptionKey.switch given).spellings
  | .simplify spelling => spelling ∈ OptionKey.simplify.spellings
  | .value option spelling text =>
      spelling ∈ (OptionKey.value option).spellings ∧ Takes option text
  | .operand text => Plain text

instance (item : Item) : Decidable item.Proper :=
  match item with
  | .switch given spelling =>
      inferInstanceAs (Decidable (spelling ∈ (OptionKey.switch given).spellings))
  | .simplify spelling => inferInstanceAs (Decidable (spelling ∈ OptionKey.simplify.spellings))
  | .value option spelling text =>
      inferInstanceAs
        (Decidable (spelling ∈ (OptionKey.value option).spellings ∧ Takes option text))
  | .operand text => inferInstanceAs (Decidable (Plain text))

def switch? : Item → Option Switch
  | .switch given _ => some given
  | _ => none

def isSimplify : Item → Bool
  | .simplify _ => true
  | _ => false

def valueOf? (option : ValueOption) : Item → Option Text
  | .value given _ text => if given = option then some text else none
  | _ => none

def operand? : Item → Option Text
  | .operand text => some text
  | _ => none

end Item

/-- The values given to an option, in order. -/
def valuesOf (option : ValueOption) (items : List Item) : List Text :=
  items.filterMap (Item.valueOf? option)

/-- No option is given more often than it may be. -/
structure Once (items : List Item) : Prop where
  switches : (items.filterMap Item.switch?).Nodup
  values : ∀ option, mayRepeat option = false → (valuesOf option items).length ≤ 1

theorem Once.of_append {first second : List Item} (once : Once (first ++ second)) :
    Once first := by
  constructor
  · have switches := once.switches
    rw [List.filterMap_append] at switches
    exact (List.nodup_append.mp switches).1
  · intro option single
    have values := once.values option single
    rw [valuesOf, List.filterMap_append, List.length_append] at values
    exact Nat.le_of_add_right_le values

theorem Once.fresh_switch {items : List Item} {given : Switch} {spelling : Text}
    (once : Once (items ++ [.switch given spelling])) :
    given ∉ items.filterMap Item.switch? := by
  have switches := once.switches
  rw [List.filterMap_append] at switches
  intro inside
  exact (List.nodup_append.mp switches).2.2 given inside given (List.mem_singleton.mpr rfl) rfl

theorem Once.fresh_value {items : List Item} {option : ValueOption} {spelling text : Text}
    (once : Once (items ++ [.value option spelling text])) (single : mayRepeat option = false) :
    valuesOf option items = [] := by
  have values := once.values option single
  rw [valuesOf, List.filterMap_append, List.length_append] at values
  have last : ([Item.value option spelling text].filterMap (Item.valueOf? option)).length = 1 := by
    simp [Item.valueOf?]
  apply List.eq_nil_of_length_eq_zero
  rw [valuesOf]
  omega

/-- The options that items give, whatever their order among each other. -/
def ofItems (items : List Item) : Options :=
  { switches := items.filterMap Item.switch?
    simplify := min 255 (items.countP Item.isSimplify)
    language := (valuesOf .language items).head?.map .ofName
    output := (valuesOf .output items).head?.map Path.mk
    passthrough := valuesOf .passthrough items
    libraries := valuesOf .library items
    operands := items.filterMap Item.operand? }

theorem turnOn_ofItems {items : List Item} {given : Switch} {spelling : Text}
    (once : Once (items ++ [.switch given spelling])) :
    (ofItems items).turnOn given = .ok (ofItems (items ++ [.switch given spelling])) := by
  have fresh : (ofItems items).has given = false := by
    simpa [has, ofItems] using once.fresh_switch
  rw [turnOn, fresh]
  simp [ofItems, valuesOf, Item.switch?, Item.isSimplify, Item.valueOf?, Item.operand?]

theorem simplifyMore_ofItems (items : List Item) (spelling : Text) :
    (ofItems items).simplifyMore = ofItems (items ++ [.simplify spelling]) := by
  have counted (given : Nat) : min 255 (min 255 given + 1) = min 255 (given + 1) := by omega
  simp [simplifyMore, ofItems, valuesOf, Item.switch?, Item.isSimplify, Item.valueOf?,
    Item.operand?, counted]

theorem addOperand_ofItems (items : List Item) (text : Text) :
    (ofItems items).addOperand text = ofItems (items ++ [.operand text]) := by
  simp [addOperand, ofItems, valuesOf, Item.switch?, Item.isSimplify, Item.valueOf?,
    Item.operand?]

theorem give_ofItems {items : List Item} {option : ValueOption} {spelling text : Text}
    (taken : Takes option text) (once : Once (items ++ [.value option spelling text])) :
    (ofItems items).give option text = .ok (ofItems (items ++ [.value option spelling text])) := by
  have unchanged (other : ValueOption) (different : option ≠ other) :
      valuesOf other (items ++ [.value option spelling text]) = valuesOf other items := by
    simp [valuesOf, Item.valueOf?, different]
  have added : valuesOf option (items ++ [.value option spelling text]) =
      valuesOf option items ++ [text] := by
    simp [valuesOf, Item.valueOf?]
  cases option with
  | language =>
      have fresh := once.fresh_value rfl
      have named : text ∈ Language.names := taken
      simp [give, ofItems, fresh, named, added, unchanged, Item.switch?, Item.isSimplify,
        Item.operand?]
  | output =>
      have fresh := once.fresh_value rfl
      have filled : text ≠ [] := taken.1
      simp [give, ofItems, fresh, filled, added, unchanged, Item.switch?, Item.isSimplify,
        Item.operand?]
  | passthrough =>
      simp [give, ofItems, added, unchanged, Item.switch?, Item.isSimplify, Item.operand?]
  | library =>
      simp [give, ofItems, added, unchanged, Item.switch?, Item.isSimplify, Item.operand?]

namespace Reading

variable {reading : Reading} {options : Options}

theorem waiting?_of_settle (settled : reading.settle = .ok options) (argument : Text) :
    reading.waiting? argument = none := by
  rcases reading with ⟨given, pending⟩
  rcases pending with _ | ⟨option, _ | value⟩
  · rfl
  · cases settled
  · rfl

theorem short_singleton {c : Char} {key : OptionKey} (found : OptionKey.ofShort? c = some key) :
    reading.short [c] = reading.accept key none := by
  rw [Reading.short, found]
  cases read : reading.accept key none with
  | ok next =>
      cases key with
      | value option => exact read
      | _ =>
          simp only [read]
          rfl
  | error stop =>
      cases key with
      | value option => exact read
      | _ => simp only [read]

theorem next_spelling {key : OptionKey} {spelling : Text} (spelled : spelling ∈ key.spellings)
    (settled : reading.settle = .ok options) :
    reading.next spelling = reading.accept key none := by
  have free := waiting?_of_settle settled spelling
  rcases OptionKey.of_mem_spellings spelled with
    ⟨short, rfl, notDash, found⟩ | ⟨long, rfl, -, noEquals, found⟩
  · have cluster : reading.next ['-', short] = reading.short [short] := by
      simp [next, free]
    rw [cluster, short_singleton found]
  · have named : reading.next ('-' :: '-' :: long) = reading.long long := by
      simp [next, free]
    have whole : Text.cut? "=" long = none := Text.cut?_of_not_mem noEquals
    rw [named, Reading.long, whole]
    simp only [found]

theorem next_plain {text : Text} (plain : Plain text) (settled : reading.settle = .ok options) :
    reading.next text = .ok { options := options.addOperand text, pending := none } := by
  have free := waiting?_of_settle settled text
  have read : reading.operand text =
      .ok { options := options.addOperand text, pending := none } := by
    rw [operand, settled]
    rfl
  rw [← read]
  unfold next
  rw [free]
  rcases text with _ | ⟨c, _ | ⟨d, rest⟩⟩
  · rfl
  · simp
  · simp [plain.head_ne]

theorem looksLikeOption_of_plain {text : Text} (plain : Plain text) :
    looksLikeOption text = false := by
  rcases text with _ | ⟨c, _ | ⟨d, rest⟩⟩
  · rfl
  · simp [looksLikeOption]
  · simp [looksLikeOption, plain.head_ne]

theorem looksLikeOption_of_mem_names : ∀ name ∈ Language.names, looksLikeOption name = false := by
  decide

theorem waits_of_takes {option : ValueOption} {text : Text} (taken : Takes option text) :
    (option.takesAnything || !looksLikeOption text) = true := by
  cases option with
  | language => simp [looksLikeOption_of_mem_names text taken]
  | output => simp [looksLikeOption_of_plain taken.2]
  | passthrough => rfl
  | library => simp [looksLikeOption_of_plain taken]

/-- An option that waits for its value keeps it until the next item. -/
theorem all_value {option : ValueOption} {spelling text : Text}
    (spelled : spelling ∈ (OptionKey.value option).spellings) (taken : Takes option text)
    (settled : reading.settle = .ok options) :
    reading.all [spelling, text] =
      .ok { options := options, pending := some (option, some text) } := by
  have accepted : reading.accept (.value option) none =
      .ok { options := options, pending := some (option, none) } := by
    rw [accept, settled]
    rfl
  rw [all, next_spelling spelled settled, accepted]
  simp [all, next, waiting?, waits_of_takes taken]

/-- Reading one more item after everything before it was in order. -/
theorem all_item {items : List Item} {item : Item} (proper : item.Proper)
    (once : Once (items ++ [item])) (settled : reading.settle = .ok (ofItems items)) :
    ∃ next, reading.all item.arguments = .ok next ∧
      next.settle = .ok (ofItems (items ++ [item])) := by
  cases item with
  | switch given spelling =>
      refine ⟨{ options := ofItems (items ++ [.switch given spelling]), pending := none }, ?_, rfl⟩
      have accepted : reading.accept (.switch given) none =
          .ok { options := ofItems (items ++ [.switch given spelling]), pending := none } := by
        simp only [accept, settled, bind, Except.bind, turnOn_ofItems once]
        rfl
      rw [Item.arguments, all, next_spelling proper settled, accepted]
      rfl
  | simplify spelling =>
      refine ⟨{ options := ofItems (items ++ [.simplify spelling]), pending := none }, ?_, rfl⟩
      have accepted : reading.accept .simplify none =
          .ok { options := ofItems (items ++ [.simplify spelling]), pending := none } := by
        rw [← simplifyMore_ofItems, accept, settled]
        rfl
      rw [Item.arguments, all, next_spelling proper settled, accepted]
      rfl
  | value option spelling text =>
      refine ⟨{ options := ofItems items, pending := some (option, some text) }, ?_, ?_⟩
      · exact all_value proper.1 proper.2 settled
      · exact give_ofItems proper.2 once
  | operand text =>
      refine ⟨{ options := ofItems (items ++ [.operand text]), pending := none }, ?_, rfl⟩
      rw [Item.arguments, all, next_plain proper settled, addOperand_ofItems]
      rfl

theorem all_items {items : List Item} (proper : ∀ item ∈ items, item.Proper)
    (once : Once items) :
    ∃ next, start.all (items.flatMap Item.arguments) = .ok next ∧
      next.settle = .ok (ofItems items) := by
  induction items using List.reverseRecOn with
  | nil => exact ⟨start, rfl, rfl⟩
  | append_singleton items item ih =>
      have properItem : item.Proper := proper item (by simp)
      have properItems : ∀ earlier ∈ items, earlier.Proper := by
        intro earlier inside
        exact proper earlier (List.mem_append_left [item] inside)
      obtain ⟨middle, read, settled⟩ := ih properItems once.of_append
      obtain ⟨last, readItem, settledItem⟩ := all_item properItem once settled
      refine ⟨last, ?_, settledItem⟩
      rw [List.flatMap_append, all_append, read, List.flatMap_singleton]
      exact readItem

end Reading

/-- Items in which no option is given too often are read in whatever order they come. -/
theorem parse_items {items : List Item} (proper : ∀ item ∈ items, item.Proper)
    (once : Once items) : parse (items.flatMap Item.arguments) = .ok (ofItems items) := by
  obtain ⟨last, read, settled⟩ := Reading.all_items proper once
  rw [parse, read]
  exact settled

theorem separator_not_mem_arguments {item : Item} (proper : item.Proper) :
    separator ∉ item.arguments := by
  have notSpelling {key : OptionKey} {spelling : Text} (spelled : spelling ∈ key.spellings) :
      separator ≠ spelling := by
    rcases OptionKey.of_mem_spellings spelled with
      ⟨short, rfl, notDash, -⟩ | ⟨long, rfl, filled, -⟩
    · intro same
      obtain rfl : '-' = short := by simpa [separator] using same
      exact notDash rfl
    · intro same
      obtain rfl : [] = long := by simpa [separator] using same
      exact filled rfl
  have notPlain {text : Text} (plain : Plain text) : separator ≠ text := by
    rintro rfl
    cases plain rfl
  cases item with
  | switch given spelling => simpa [Item.arguments] using notSpelling proper
  | simplify spelling => simpa [Item.arguments] using notSpelling proper
  | value option spelling text =>
      have notValue : separator ≠ text := by
        cases option with
        | language =>
            rintro rfl
            have named : separator ∈ Language.names := proper.2
            revert named
            decide
        | output => exact notPlain proper.2.2
        | passthrough => exact Ne.symm proper.2
        | library => exact notPlain proper.2
      simpa [Item.arguments] using And.intro (notSpelling proper.1) notValue
  | operand text => simpa [Item.arguments] using notPlain proper

end Options

end CompilerFront
