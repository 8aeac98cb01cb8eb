import CompilerFront.Proofs.Simplify.ClosedBrackets
import CompilerFront.Proofs.Simplify.ContainerSearch

set_option autoImplicit false

namespace CompilerFront.Simplify

/-- The sequence containers that have an allocator as their only default argument. -/
inductive Sequence
  | vector
  | list
  deriving DecidableEq

def Sequence.container : Sequence → Container
  | vector => ⟨"vector", ["allocator"]⟩
  | list => ⟨"list", ["allocator"]⟩

def Sequence.opening (kind : Sequence) : Text := kind.container.name ++ "<"

/-- What stands between the two mentions of an element type. -/
def allocatorOpening : Text := ", allocator<"

inductive SequenceType
  | named (name : PlainName)
  | sequence (kind : Sequence) (element : SequenceType)
  deriving DecidableEq

namespace SequenceType

/-- What the compiler puts behind a type in front of a closing bracket. -/
def behind (gap : Text) : SequenceType → Text
  | named _ => []
  | sequence _ _ => gap

/-- A type with its allocators written out, the standard library's names with a qualifier, and with
a gap between closing brackets. -/
def spelled (qualifier gap : Text) : SequenceType → Text
  | named name => name.text
  | sequence kind element =>
      qualifier ++ kind.container.name ++ "<" ++ element.spelled qualifier gap ++ ", " ++
        qualifier ++ "allocator<" ++ element.spelled qualifier gap ++ element.behind gap ++ ">" ++
        gap ++ ">"

def printed (type : SequenceType) : Text := type.spelled "std::" " "

/-- A type where some of the containers, told by their element types, are written without their
allocator. -/
def written (short : Sequence → SequenceType → Bool) : SequenceType → Text
  | named name => name.text
  | sequence kind element =>
      if short kind element then kind.container.shortName (element.written short)
      else kind.container.fullName (element.written short)

/-- How many containers stand in each other. -/
def depth : SequenceType → Nat
  | named _ => 0
  | sequence _ element => element.depth + 1

/-- The element types of the instances of a container in a type, the outer ones first. -/
def elements (container : Container) : SequenceType → List SequenceType
  | named _ => []
  | sequence kind element =>
      if kind.container = container then element :: element.elements container
      else element.elements container

end SequenceType

theorem Sequence.container_mem (kind : Sequence) : kind.container ∈ containers := by
  cases kind <;> decide

theorem Sequence.container_injective {kind other : Sequence}
    (same : kind.container = other.container) : kind = other := by
  revert same
  cases kind <;> cases other <;> decide

theorem Sequence.isIdentifier_name (kind : Sequence) : IsIdentifier kind.container.name :=
  isIdentifier_containerName _ kind.container_mem

theorem Sequence.opening_append_inj {kind other : Sequence} {first second : Text}
    (same : kind.opening ++ first = other.opening ++ second) : kind = other ∧ first = second := by
  have heads := congrArg List.head? same
  have kinds : kind = other := by
    cases kind <;> cases other
    · rfl
    · exact absurd (Option.some.inj heads) (by decide)
    · exact absurd (Option.some.inj heads) (by decide)
    · rfl
  subst kinds
  exact ⟨rfl, List.append_cancel_left same⟩

theorem Sequence.fullName_append (kind : Sequence) (element rest : Text) :
    kind.container.fullName element ++ rest =
      kind.opening ++ (element ++ (allocatorOpening ++ (element ++ (">>" ++ rest)))) := by
  have defaults : kind.container.defaults = ["allocator".toList] := by cases kind <;> rfl
  have closing : (">>" : Text) = ">" ++ ">" := rfl
  have further : allocatorOpening = ", " ++ "allocator" ++ "<" := rfl
  rw [Container.fullName, defaults, List.flatMap_singleton, Container.defaultArgument, closing,
    further, Sequence.opening]
  simp only [List.append_assoc]

namespace SequenceType

variable {short : Sequence → SequenceType → Bool} {kind : Sequence} {element : SequenceType}

theorem written_append_of_short (brief : short kind element = true) (rest : Text) :
    (sequence kind element).written short ++ rest =
      kind.opening ++ (element.written short ++ (">" ++ rest)) := by
  rw [written, if_pos brief]
  simp [Container.shortName, Sequence.opening]

theorem written_append_of_full (full : short kind element = false) (rest : Text) :
    (sequence kind element).written short ++ rest =
      kind.opening ++ (element.written short ++
        (allocatorOpening ++ (element.written short ++ (">>" ++ rest)))) := by
  rw [written, if_neg (Bool.eq_false_iff.mp full), Sequence.fullName_append]

theorem written_of_short (brief : short kind element = true) :
    (sequence kind element).written short = kind.opening ++ (element.written short ++ ">") := by
  simpa only [List.append_nil] using written_append_of_short brief []

theorem written_of_full (full : short kind element = false) :
    (sequence kind element).written short =
      kind.opening ++ (element.written short ++
        (allocatorOpening ++ (element.written short ++ ">>"))) := by
  simpa only [List.append_nil] using written_append_of_full full []

/-- Without a qualifier and gaps every allocator is written out. -/
theorem spelled_nil_nil (type : SequenceType) :
    type.spelled [] [] = type.written fun _ _ => false := by
  induction type with
  | named name => rfl
  | sequence kind element ih =>
      have full : (sequence kind element).written (fun _ _ => false) = _ := written_of_full rfl
      have gone : element.behind [] = [] := by cases element <;> rfl
      have closing : (">>" : Text) = ">" ++ ">" := rfl
      have further : allocatorOpening = ", " ++ "allocator<" := rfl
      rw [full, spelled, ih, gone, closing, further, Sequence.opening]
      simp only [List.append_assoc, List.append_nil, List.nil_append]

/-- Two brackets are open where a container's allocator mentions the element type. -/
theorem readThrough_written (short : Sequence → SequenceType → Bool) (type : SequenceType) :
    ReadThrough 0 (2 * type.depth) (type.written short) := by
  induction type with
  | named name => exact readThrough_of_isIdentifier name.identifier
  | sequence kind element ih =>
      have height : 2 * (sequence kind element).depth = 2 * element.depth + 1 + 1 := by
        rw [depth]
        omega
      have name := (readThrough_of_isIdentifier kind.isIdentifier_name).of_le (Nat.le_refl 0)
        (Nat.zero_le (2 * element.depth + 1 + 1))
      have inner := ih.of_le (Nat.zero_le 1) (Nat.le_refl (2 * element.depth))
      have within := ih.of_le (Nat.zero_le 1) (Nat.le_succ (2 * element.depth))
      rw [height]
      cases brief : short kind element with
      | true =>
          have whole := name.append within.enclosed
          rw [written_of_short brief, Sequence.opening]
          simpa only [List.append_assoc] using whole
      | false =>
          have allocator : ReadThrough 0 (2 * element.depth + 1) " allocator" :=
            (readThrough_of_inert (by decide)).of_le (Nat.le_refl 0) (Nat.zero_le _)
          have comma : ReadThrough 1 (2 * element.depth + 1) "," :=
            readThrough_comma.of_le (Nat.le_refl 1) (Nat.zero_le _)
          have further := (allocator.append inner.enclosed).of_le (Nat.zero_le 1) (Nat.le_refl _)
          have whole := name.append (within.append (comma.append further)).enclosed
          have closing : (">>" : Text) = ">" ++ ">" := rfl
          have between : allocatorOpening = "," ++ " allocator" ++ "<" := rfl
          rw [written_of_full brief, Sequence.opening, closing, between]
          simpa only [List.append_assoc] using whole

theorem isPassed_written (short : Sequence → SequenceType → Bool) {type : SequenceType}
    (shallow : type.depth < 2 ^ 30) : IsPassed (type.written short) :=
  (type.readThrough_written short).isPassed (by omega)

theorem trim_written (short : Sequence → SequenceType → Bool) (type : SequenceType) :
    Text.trim (type.written short) = type.written short := by
  cases type with
  | named name => exact trim_of_isIdentifier name.identifier
  | sequence kind element =>
      cases brief : short kind element with
      | true =>
          rw [written_of_short brief]
          exact Text.trim_append_append (by cases kind <;> decide) (by decide) _
      | false =>
          rw [written_of_full brief, ← List.append_assoc allocatorOpening,
            ← List.append_assoc (element.written short)]
          exact Text.trim_append_append (by cases kind <;> decide) (by decide) _

theorem argumentFrom?_written_of_full (short : Sequence → SequenceType → Bool)
    {type : SequenceType} (shallow : type.depth < 2 ^ 30) (rest : Text) :
    argumentFrom? 0 (type.written short ++ (allocatorOpening ++ rest)) =
      some (type.written short) :=
  argumentFrom?_of_comma (isPassed_written short shallow) _

theorem argumentFrom?_written_of_short (short : Sequence → SequenceType → Bool)
    {type : SequenceType} (shallow : type.depth < 2 ^ 30) :
    argumentFrom? 0 (type.written short ++ ">") = none :=
  argumentFrom?_of_bracket (isPassed_written short shallow) []

theorem bracket_mem_written (short : Sequence → SequenceType → Bool) (kind : Sequence)
    (element : SequenceType) : '<' ∈ (sequence kind element).written short := by
  have opened : '<' ∈ kind.opening := List.mem_append_right _ (by decide)
  cases brief : short kind element with
  | true => exact written_of_short brief ▸ List.mem_append_left _ opened
  | false => exact written_of_full brief ▸ List.mem_append_left _ opened

theorem written_ne_text (short : Sequence → SequenceType → Bool) (kind : Sequence)
    (element : SequenceType) (name : PlainName) :
    (sequence kind element).written short ≠ name.text := by
  intro same
  have opened := bracket_mem_written short kind element
  rw [same] at opened
  exact name.identifier.not_mem (by decide) opened

/-- Only with its allocator a container has an argument that ends at a comma. -/
theorem written_ne_of_short {kind' : Sequence} {element' : SequenceType}
    (shallow : element.depth < 2 ^ 30) (shallow' : element'.depth < 2 ^ 30)
    (brief : short kind element = true) (full : short kind' element' = false) :
    (sequence kind element).written short ≠ (sequence kind' element').written short := by
  intro same
  rw [written_of_short brief, written_of_full full] at same
  have read := congrArg (argumentFrom? 0) (Sequence.opening_append_inj same).2
  rw [argumentFrom?_written_of_short short shallow,
    argumentFrom?_written_of_full short shallow'] at read
  cases read

theorem written_injective (short : Sequence → SequenceType → Bool) {type other : SequenceType}
    (shallow : type.depth < 2 ^ 30) (shallow' : other.depth < 2 ^ 30)
    (same : type.written short = other.written short) : type = other := by
  induction type generalizing other with
  | named name =>
      cases other with
      | named name' =>
          have texts : name.text = name'.text := same
          obtain ⟨text, _, _⟩ := name
          obtain ⟨text', _, _⟩ := name'
          cases texts
          rfl
      | sequence kind element => exact absurd same.symm (written_ne_text short kind element name)
  | sequence kind element ih =>
      cases other with
      | named name => exact absurd same (written_ne_text short kind element name)
      | sequence kind' element' =>
          have inside : element.depth < 2 ^ 30 := Nat.lt_of_succ_lt shallow
          have inside' : element'.depth < 2 ^ 30 := Nat.lt_of_succ_lt shallow'
          cases brief : short kind element with
          | true =>
              cases brief' : short kind' element' with
              | true =>
                  rw [written_of_short brief, written_of_short brief'] at same
                  obtain ⟨rfl, inner⟩ := Sequence.opening_append_inj same
                  rw [ih inside inside' (List.append_cancel_right inner)]
              | false => exact absurd same (written_ne_of_short inside inside' brief brief')
          | false =>
              cases brief' : short kind' element' with
              | true => exact absurd same.symm (written_ne_of_short inside' inside brief' brief)
              | false =>
                  rw [written_of_full brief, written_of_full brief'] at same
                  obtain ⟨rfl, inner⟩ := Sequence.opening_append_inj same
                  have read := congrArg (argumentFrom? 0) inner
                  rw [argumentFrom?_written_of_full short inside,
                    argumentFrom?_written_of_full short inside'] at read
                  rw [ih inside inside' (Option.some.inj read)]

end SequenceType

end CompilerFront.Simplify
