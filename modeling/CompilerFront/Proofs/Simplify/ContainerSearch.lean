import CompilerFront.Simplify.Fragment
import CompilerFront.Proofs.Simplify.IdentifierTokens
import CompilerFront.Proofs.Text.Occurrence
import CompilerFront.Proofs.Text.Trim
import Mathlib.Algebra.Order.Group.Nat

set_option autoImplicit false

namespace CompilerFront.Simplify

/-- The words that no name of the user's holds: the containers, the namespace of the standard
library, and the word with which a clause begins. -/
def reservedWords : List Text := containers.map Container.name ++ (["std", "with"] : List Text)

/-- An identifier that holds no reserved word. -/
structure PlainName where
  text : Text
  identifier : IsIdentifier text
  unreserved : ∀ word ∈ reservedWords, ¬ word <:+: text
  deriving DecidableEq

theorem isIdentifier_containerName : ∀ container ∈ containers, IsIdentifier container.name := by
  decide

theorem trim_of_isIdentifier {text : Text} (identifier : IsIdentifier text) :
    Text.trim text = text :=
  Text.trim_of_solid fun c inside =>
    Text.not_isBlank_of_isIdentifierChar (identifier.isIdentifierChar c inside)

/-- Text that is read as a part of an argument wherever at least some brackets are open, and no more
than leave room to count those that it opens. -/
def ReadThrough (least height : Nat) (text : Text) : Prop :=
  ∀ depth, least ≤ depth → depth + height < 2 ^ 31 → ∀ rest,
    argumentFrom? (Int32.ofNat depth) (text ++ rest) =
      (argumentFrom? (Int32.ofNat depth) rest).map (text ++ ·)

/-- Text that is read as a part of an argument where no bracket is open. -/
def IsPassed (text : Text) : Prop :=
  ∀ rest, argumentFrom? 0 (text ++ rest) = (argumentFrom? 0 rest).map (text ++ ·)

section

variable {least height depth : Nat} {first second text rest : Text} {container : Container}

/-- As many open brackets as can be counted are neither none nor less. -/
theorem ofNat_of_small (small : depth < 2 ^ 31) :
    (Int32.ofNat depth = 0 ↔ depth = 0) ∧ ¬ Int32.ofNat depth < 0 := by
  have value : (Int32.ofNat depth).toInt = depth := Int32.toInt_ofNat_of_lt small
  have zero : (0 : Int32).toInt = 0 := rfl
  rw [← Int32.toInt_inj, Int32.lt_iff_toInt_lt, value, zero]
  omega

theorem argumentFrom?_cons {c : Char} {inner : Nat} (small : depth < 2 ^ 31 ∧ inner < 2 ^ 31)
    (inside : ¬ ((c = ',' ∨ c = '=') ∧ depth = 0))
    (step : Int32.ofNat depth + bracketStep c = Int32.ofNat inner) :
    argumentFrom? (Int32.ofNat depth) (c :: rest) =
      (argumentFrom? (Int32.ofNat inner) rest).map (c :: ·) := by
  have goesOn : ¬ ((c = ',' ∨ c = '=') ∧ Int32.ofNat depth = 0) := by
    rwa [(ofNat_of_small small.1).1]
  rw [argumentFrom?, if_neg goesOn, step]
  exact if_neg (ofNat_of_small small.2).2

theorem ReadThrough.append (one : ReadThrough least height first)
    (other : ReadThrough least height second) : ReadThrough least height (first ++ second) := by
  intro depth opened room rest
  rw [List.append_assoc, one depth opened room, other depth opened room, Option.map_map]
  congr 1
  funext argument
  exact (List.append_assoc first second argument).symm

theorem ReadThrough.of_le {more higher : Nat} (through : ReadThrough least height text)
    (larger : least ≤ more) (above : height ≤ higher) : ReadThrough more higher text :=
  fun depth opened room =>
    through depth (larger.trans opened) (Nat.lt_of_le_of_lt (Nat.add_le_add_left above depth) room)

theorem ReadThrough.isPassed (through : ReadThrough 0 height text) (room : height < 2 ^ 31) :
    IsPassed text :=
  through 0 (Nat.le_refl 0) (by rwa [Nat.zero_add])

theorem readThrough_of_inert
    (inert : ∀ c ∈ text, bracketStep c = 0 ∧ c ≠ ',' ∧ c ≠ '=') : ReadThrough 0 0 text := by
  intro depth opened room rest
  induction text with
  | nil => simp
  | cons c text ih =>
      obtain ⟨⟨plain, comma, equals⟩, others⟩ := List.forall_mem_cons.mp inert
      have inside : ¬ ((c = ',' ∨ c = '=') ∧ depth = 0) := fun ends =>
        ends.1.elim comma equals
      have step : Int32.ofNat depth + bracketStep c = Int32.ofNat depth := by
        rw [plain, Int32.add_zero]
      rw [Nat.add_zero] at room
      rw [List.cons_append, argumentFrom?_cons ⟨room, room⟩ inside step, ih others, Option.map_map]
      rfl

theorem readThrough_of_isIdentifier (identifier : IsIdentifier text) : ReadThrough 0 0 text := by
  refine readThrough_of_inert fun c inside => ?_
  refine ⟨bracketStep_of_isIdentifierChar (identifier.isIdentifierChar c inside), ?_, ?_⟩
  · rintro rfl
    exact identifier.not_mem (by decide) inside
  · rintro rfl
    exact identifier.not_mem (by decide) inside

theorem isPassed_of_isIdentifier (identifier : IsIdentifier text) : IsPassed text :=
  (readThrough_of_isIdentifier identifier).isPassed (by decide)

theorem readThrough_comma : ReadThrough 1 0 "," := by
  intro depth opened room rest
  have step : Int32.ofNat depth + bracketStep ',' = Int32.ofNat depth := Int32.add_zero _
  exact argumentFrom?_cons ⟨room, room⟩ (fun outside => by omega) step

/-- What is read through in brackets makes, with brackets around it, an argument. -/
theorem ReadThrough.enclosed (through : ReadThrough 1 height text) :
    ReadThrough 0 (height + 1) ("<" ++ text ++ ">") := by
  intro depth opened room rest
  have up : Int32.ofNat depth + bracketStep '<' = Int32.ofNat (depth + 1) :=
    (Int32.ofNat_add depth 1).symm
  have down : Int32.ofNat (depth + 1) + bracketStep '>' = Int32.ofNat depth := by
    rw [← up, Int32.add_assoc]
    exact Int32.add_zero _
  have shape : ("<" ++ text ++ ">" : Text) ++ rest = '<' :: (text ++ '>' :: rest) := by simp
  rw [shape, argumentFrom?_cons (by omega) (by simp) up,
    through (depth + 1) (Nat.le_add_left 1 depth) (by omega),
    argumentFrom?_cons (by omega) (by simp) down, Option.map_map, Option.map_map]
  congr 1
  funext argument
  simp

theorem argumentFrom?_of_comma (passed : IsPassed text) (rest : Text) :
    argumentFrom? 0 (text ++ ',' :: rest) = some text := by
  rw [passed]
  simp [argumentFrom?]

theorem argumentFrom?_of_bracket (passed : IsPassed text) (rest : Text) :
    argumentFrom? 0 (text ++ '>' :: rest) = none := by
  rw [passed]
  simp [argumentFrom?, bracketStep]

theorem argumentFrom?_of_isPassed (passed : IsPassed text) : argumentFrom? 0 text = none := by
  have whole := passed []
  rwa [List.append_nil] at whole

theorem isEnd_append {front : Text} {c : Char} (head : front.head? = some c)
    (other : Text.isIdentifierChar c = false) (rest : Text) : IsEnd (front ++ rest) := by
  intro d start
  rw [List.head?_append, head] at start
  obtain rfl : c = d := Option.some.inj start
  exact other

theorem apart_of_signs (known : container ∈ containers) {front : Text}
    (signs : ∀ c ∈ front, Text.isIdentifierChar c = false) (rest : Text) :
    Text.Apart container.name front rest := by
  have identifier := isIdentifier_containerName container known
  refine Text.apart_of_head? identifier.ne_nil (fun c inside head => ?_) rest
  exact identifier.not_mem (signs c inside) (List.mem_of_head? head)

theorem PlainName.apart (name : PlainName) (known : container ∈ containers) (ended : IsEnd rest) :
    Text.Apart container.name name.text rest := by
  have identifier := isIdentifier_containerName container known
  have reserved : container.name ∈ reservedWords :=
    List.mem_append_left _ (List.mem_map_of_mem known)
  exact Text.apart_of_ended (name.unreserved _ reserved) fun c head inside =>
    identifier.not_mem (ended c head) (List.mem_of_mem_tail inside)

end

namespace Container

variable {container : Container} {front text element rest : Text}

theorem element?_append_of_apart (apart : Text.Apart container.name front text) :
    container.element? (front ++ text) = container.element? text := by
  rw [element?, Text.cut?_append_of_apart apart, element?]
  rcases Text.cut? container.name text with _ | ⟨before, _ | ⟨bracket, arguments⟩⟩ <;> rfl

theorem element?_of_absent (absent : ¬ container.name <:+: text) :
    container.element? text = none := by
  rw [← Text.occursIn_iff_infix, Text.occursIn, Option.not_isSome_iff_eq_none] at absent
  rw [element?, absent]

theorem name_prefix_fullName (container : Container) (element : Text) :
    container.name <+: container.fullName element := by
  rw [fullName]
  simp only [List.append_assoc]
  exact List.prefix_append _ _

/-- Behind the name of the container and one more character its first argument is read. -/
theorem element?_name_append (solid : container.name ≠ []) {bracket : Char}
    (ascii : bracket.toNat < 128) (arguments : Text) :
    container.element? (container.name ++ bracket :: arguments) =
      (argumentFrom? 0 arguments).map Text.trim := by
  rw [element?, Text.cut?_self_append solid]
  exact if_pos ascii

theorem element?_of_isPassed (solid : container.name ≠ []) (passed : IsPassed element)
    (trimmed : Text.trim element = element) (rest : Text) :
    container.element? (container.name ++ '<' :: (element ++ ',' :: rest)) = some element := by
  rw [element?_name_append solid (by decide), argumentFrom?_of_comma passed, Option.map_some,
    trimmed]

theorem dropDefaults_of_element?_eq_none (nothing : container.element? text = none) :
    container.dropDefaults text = text := by
  rw [dropDefaults, nothing]

/-- The roundabout name of an element type holds colons, and is not found without any. -/
theorem dropDefaults_of_element?_eq_some (found : container.element? text = some element)
    (plain : ':' ∉
      Text.replaceAll (container.fullName element) (container.shortName element) text) :
    container.dropDefaults text =
      Text.replaceAll (container.fullName element) (container.shortName element) text := by
  have colon : ':' ∈ container.valueType element :=
    List.mem_append_right _ (List.mem_of_elem_eq_true rfl)
  have absent : ¬ container.valueType element <:+:
      Text.replaceAll (container.fullName element) (container.shortName element) text :=
    fun inside => plain (inside.mem colon)
  simp only [dropDefaults, found, Text.replaceAll_of_not_infix element absent]

/-- The arguments of a container with defaults: the element, a comma, and more. -/
theorem exists_fullName_append (more : container.defaults ≠ []) (element rest : Text) :
    ∃ others, container.fullName element ++ rest =
      container.name ++ '<' :: (element ++ ',' :: others) := by
  obtain ⟨template, templates, shape⟩ := List.exists_cons_of_ne_nil more
  have comma (text : Text) : (", " : Text) ++ text = ',' :: ' ' :: text := rfl
  have opening (text : Text) : ("<" : Text) ++ text = '<' :: text := rfl
  refine ⟨' ' :: (template ++ ("<" ++ (element ++ (">" ++
    (templates.flatMap (defaultArgument element) ++ (">" ++ rest)))))), ?_⟩
  rw [fullName, shape, List.flatMap_cons, defaultArgument]
  simp only [List.append_assoc, List.cons_append, comma, opening]

theorem element?_fullName_append (solid : container.name ≠ []) (more : container.defaults ≠ [])
    (passed : IsPassed element) (trimmed : Text.trim element = element) (rest : Text) :
    container.element? (container.fullName element ++ rest) = some element := by
  obtain ⟨others, shape⟩ := exists_fullName_append more element rest
  rw [shape, element?_of_isPassed solid passed trimmed]

theorem element?_shortName_append (solid : container.name ≠ []) (passed : IsPassed element)
    (rest : Text) : container.element? (container.shortName element ++ rest) = none := by
  have shape : container.shortName element ++ rest =
      container.name ++ '<' :: (element ++ '>' :: rest) := by
    rw [shortName]
    simp only [List.append_assoc]
    rfl
  rw [shape, element?_name_append solid (by decide), argumentFrom?_of_bracket passed,
    Option.map_none]

theorem dropDefaults_fullName (solid : container.name ≠ []) (more : container.defaults ≠ [])
    (passed : IsPassed element) (trimmed : Text.trim element = element)
    (apart : Text.Apart container.name front (container.fullName element ++ rest))
    (absent : ¬ container.name <:+: rest)
    (plain : ':' ∉ front ++ (container.shortName element ++ rest)) :
    container.dropDefaults (front ++ (container.fullName element ++ rest)) =
      front ++ (container.shortName element ++ rest) := by
  have start := container.name_prefix_fullName element
  have full : container.fullName element ≠ [] := fun empty =>
    solid (List.prefix_nil.mp (empty ▸ start))
  have behind : ¬ container.fullName element <:+: rest := fun inside =>
    absent (start.isInfix.trans inside)
  have found : container.element? (front ++ (container.fullName element ++ rest)) =
      some element := by
    rw [element?_append_of_apart apart, element?_fullName_append solid more passed trimmed]
  have replaced : Text.replaceAll (container.fullName element) (container.shortName element)
      (front ++ (container.fullName element ++ rest)) =
        front ++ (container.shortName element ++ rest) := by
    rw [Text.replaceAll_append_of_apart (Text.Apart.of_start apart start),
      Text.replaceAll_self_append full, Text.replaceAll_of_not_infix _ behind]
  rw [dropDefaults_of_element?_eq_some found (replaced ▸ plain), replaced]

end Container

end CompilerFront.Simplify
