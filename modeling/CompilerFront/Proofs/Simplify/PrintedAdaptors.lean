import CompilerFront.Proofs.Simplify.ClosedBrackets
import CompilerFront.Proofs.Simplify.ContainerSearch
import CompilerFront.Proofs.Simplify.PlainCode

set_option autoImplicit false

namespace CompilerFront.Simplify

/-- Identifier characters, blanks, and the signs of pointers and references. -/
def isPlainChar (c : Char) : Bool :=
  Text.isIdentifierChar c || Text.isBlank c || c == '*' || c == '&'

/-- Text of such characters that holds no reserved word. -/
structure PlainText where
  text : Text
  isPlain : ∀ c ∈ text, isPlainChar c = true
  unreserved : ∀ word ∈ reservedWords, ¬ word <:+: text

def PlainText.part (whole : PlainText) {text : Text} (inside : text <:+: whole.text) :
    PlainText where
  text := text
  isPlain c within := whole.isPlain c (inside.mem within)
  unreserved word reserved occurs := whole.unreserved word reserved (occurs.trans inside)

theorem PlainText.not_mem (plain : PlainText) {c : Char} (strange : isPlainChar c = false) :
    c ∉ plain.text := by
  intro inside
  rw [plain.isPlain c inside] at strange
  cases strange

theorem PlainText.unnamed (plain : PlainText) {container : Container}
    (known : container ∈ containers) : ¬ container.name <:+: plain.text :=
  plain.unreserved _ (List.mem_append_left _ (List.mem_map_of_mem known))

theorem PlainText.readThrough (plain : PlainText) : ReadThrough 0 0 plain.text := by
  have strange : ∀ d ∈ ("<[{(>]}),=" : Text), isPlainChar d = false := by decide
  have apart {c d : Char} (inside : c ∈ plain.text) (sign : d ∈ ("<[{(>]}),=" : Text)) : c ≠ d :=
    fun same => plain.not_mem (strange d sign) (same ▸ inside)
  refine readThrough_of_inert fun c inside => ?_
  refine ⟨bracketStep_eq_zero fun bracket => ?_, apart inside (by decide), apart inside (by decide)⟩
  exact apart inside (List.mem_append_left ",=".toList bracket) rfl

/-- The adaptors of the standard library that have a container as their default argument. -/
inductive Adaptor
  | stack
  | queue
  deriving DecidableEq

def Adaptor.container : Adaptor → Container
  | stack => ⟨"stack", ["deque"]⟩
  | queue => ⟨"queue", ["deque"]⟩

/-- An adaptor with all arguments, the standard library's names with a qualifier, and with a gap
between closing brackets. -/
def Adaptor.spelled (adaptor : Adaptor) (qualifier gap element : Text) : Text :=
  qualifier ++ adaptor.container.name ++ "<" ++ element ++ ", " ++ qualifier ++ "deque<" ++
    element ++ ", " ++ qualifier ++ "allocator<" ++ element ++ ">" ++ gap ++ ">" ++ gap ++ ">"

def Adaptor.printed (adaptor : Adaptor) (element : Text) : Text :=
  adaptor.spelled "std::" " " element

/-- A name in front of each of some pieces. -/
def woven (name : Text) (pieces : List Text) : Text := pieces.flatMap (name ++ ·)

/-- No occurrence of the pattern meets the piece: none reaches into it and none begins in it. -/
def IsClear (pattern piece : Text) : Prop :=
  (piece ≠ [] ∧ ∀ c ∈ piece.head?, c ∉ pattern.tail) ∧
    ∀ tail ∈ piece.tails, tail ≠ [] → ¬ (pattern <+: tail ∨ tail <+: pattern)

instance (pattern piece : Text) : Decidable (IsClear pattern piece) :=
  inferInstanceAs (Decidable (_ ∧ _))

section

variable {pattern name : Text} {pieces : List Text}

theorem IsClear.head?_append {piece : Text} (clear : IsClear pattern piece) (rest : Text) :
    ∀ c ∈ (piece ++ rest).head?, c ∉ pattern.tail := by
  rw [List.head?_append_of_ne_nil _ clear.1.1]
  exact clear.1.2

/-- No pattern begins among clear pieces and a name without it. -/
theorem apart_woven (absent : ¬ pattern <:+: name)
    (clear : ∀ piece ∈ pieces, IsClear pattern piece) (text : Text) :
    Text.Apart pattern (woven name pieces) text := by
  induction pieces with
  | nil => exact Text.apart_nil pattern text
  | cons piece pieces ih =>
      obtain ⟨first, others⟩ := List.forall_mem_cons.mp clear
      have shape : woven name (piece :: pieces) = name ++ (piece ++ woven name pieces) := by
        simp [woven]
      have front : Text.Apart pattern name (piece ++ woven name pieces ++ text) := by
        rw [List.append_assoc]
        exact Text.apart_of_ended absent (first.head?_append _)
      rw [shape]
      exact front.append ((Text.apart_of_unrelated first.2 _).append (ih others))

end

namespace Adaptor

theorem container_mem (adaptor : Adaptor) : adaptor.container ∈ containers := by
  cases adaptor <;> decide

theorem name_ne_nil (adaptor : Adaptor) : adaptor.container.name ≠ [] := by
  cases adaptor <;> decide

theorem spelled_append (adaptor : Adaptor) (qualifier gap element rest : Text) :
    adaptor.spelled qualifier gap element ++ rest =
      qualifier ++ adaptor.container.name ++ '<' :: (element ++
        ',' :: (' ' :: (qualifier ++ "deque") ++ '<' :: (element ++
          ',' :: (' ' :: (qualifier ++ "allocator") ++ '<' :: (element ++
            '>' :: (gap ++ '>' :: (gap ++ '>' :: rest))))))) := by
  have deque : ("deque<" : Text) = "deque" ++ ['<'] := rfl
  have allocator : ("allocator<" : Text) = "allocator" ++ ['<'] := rfl
  have opening : ("<" : Text) = ['<'] := rfl
  have comma : (", " : Text) = [',', ' '] := rfl
  have closing : (">" : Text) = ['>'] := rfl
  rw [spelled, deque, allocator, opening, comma, closing]
  simp only [List.append_assoc, List.cons_append, List.nil_append]

section

variable (adaptor : Adaptor) (front back : PlainText) (name : PlainName)

theorem closeUp_spelled :
    closeUp (front.text ++ (adaptor.spelled "std::" " " name.text ++ back.text)) =
      front.text ++ (adaptor.spelled "std::" [] name.text ++ back.text) := by
  have plain {text : Text} (absent : '>' ∉ text) (before : Option Char) :
      closedFrom before text = text := closedFrom_of_not_mem (by decide) absent before
  have bracket : '>' ∉ name.text := name.identifier.not_mem (by decide)
  have space : ' ' ∉ name.text ++ ['>'] :=
    List.not_mem_append (name.identifier.not_mem (by decide)) (by decide)
  have solid : closedFrom none (name.text ++ ['>']) = name.text ++ ['>'] :=
    closedFrom_of_not_mem (c := ' ') (by decide) space none
  have opening : '>' ∉ front.text ++ ("std::" ++ adaptor.container.name) :=
    List.not_mem_append (front.not_mem (by decide)) (by cases adaptor <;> decide)
  have closing : closedFrom (some '>') (" " ++ '>' :: (" " ++ '>' :: back.text)) =
      '>' :: '>' :: back.text := by
    have gap (text : Text) : (" " : Text) ++ text = ' ' :: text := rfl
    rw [gap, gap, closedFrom_gap rfl, closedFrom_cons_of_ne (by decide), closedFrom_gap rfl,
      closedFrom_cons_of_ne (by decide), plain (back.not_mem (by decide))]
  rw [closeUp_eq_closedFrom, spelled_append, spelled_append, ← List.append_assoc front.text,
    closedFrom_append_cons (by decide) (by decide), closedFrom_append_cons (by decide) (by decide),
    closedFrom_append_cons (by decide) (by decide), closedFrom_append_cons (by decide) (by decide),
    closedFrom_append_cons (by decide) (by decide), closedFrom_append_bracket, plain opening,
    plain bracket, plain (by decide), plain (by decide), solid, closing]
  simp only [List.append_assoc, List.nil_append, List.singleton_append]

theorem removeAll_spelled :
    Text.removeAll "std::" (front.text ++ (adaptor.spelled "std::" [] name.text ++ back.text)) =
      front.text ++ (adaptor.spelled [] [] name.text ++ back.text) := by
  have colon : ∀ {text : Text}, ':' ∉ text → Text.replaceAll "std::" [] text = text :=
    fun absent => Text.replaceAll_of_not_infix [] fun inside => absent (inside.mem (by decide))
  have head : Text.replaceAll "std::" [] ("std::" ++ adaptor.container.name) =
      adaptor.container.name := by
    cases adaptor <;> decide
  have deque : Text.replaceAll "std::" [] (' ' :: ("std::" ++ "deque")) = ' ' :: "deque" := by
    decide
  have allocator : Text.replaceAll "std::" [] (' ' :: ("std::" ++ "allocator")) =
      ' ' :: "allocator" := by decide
  have apart (text : Text) : Text.Apart "std::" front.text ("std::" ++ text) := by
    have word : ¬ "std".toList <:+: front.text := front.unreserved _ (by decide)
    have ended : ∀ c ∈ (("std::" : Text) ++ text).head?, c ∉ ("std" : Text).tail := by
      intro c first
      obtain rfl : 's' = c := Option.some.inj first
      decide
    exact (Text.apart_of_ended word ended).of_start (by decide)
  have bare : ':' ∉ name.text := name.identifier.not_mem (by decide)
  have behind : ':' ∉ '>' :: '>' :: back.text :=
    List.not_mem_append (by decide : ':' ∉ ['>', '>']) (back.not_mem (by decide))
  have closing : Text.replaceAll "std::" [] ([] ++ '>' :: ([] ++ '>' :: back.text)) =
      [] ++ '>' :: ([] ++ '>' :: back.text) := colon behind
  rw [Text.removeAll, spelled_append, spelled_append, List.append_assoc "std::".toList,
    Text.replaceAll_append_of_apart (apart _), ← List.append_assoc "std::".toList,
    Text.replaceAll_append_cons (by decide), Text.replaceAll_append_cons (by decide),
    Text.replaceAll_append_cons (by decide), Text.replaceAll_append_cons (by decide),
    Text.replaceAll_append_cons (by decide), Text.replaceAll_append_cons (by decide), head,
    colon bare, deque, allocator, closing]
  simp only [List.nil_append]

theorem spelled_eq_woven :
    adaptor.spelled [] [] name.text =
      adaptor.container.name ++ "<" ++ woven name.text [", deque<", ", allocator<", ">>>"] := by
  have deque : (", deque<" : Text) = ", " ++ "deque<" := rfl
  have allocator : (", allocator<" : Text) = ", " ++ "allocator<" := rfl
  have closing : (">>>" : Text) = ">" ++ ">" ++ ">" := rfl
  rw [spelled, woven, deque, allocator, closing]
  simp only [List.flatMap_cons, List.flatMap_nil, List.append_assoc, List.nil_append,
    List.append_nil]

theorem head?_spelled_append (element rest : Text) :
    (adaptor.spelled [] [] element ++ rest).head? = adaptor.container.name.head? := by
  rw [spelled_append, List.nil_append, List.head?_append_of_ne_nil _ adaptor.name_ne_nil]

/-- No pattern that is clear of its pieces begins in an adaptor. -/
theorem apart_spelled {pattern : Text} (absent : ¬ pattern <:+: name.text)
    (opening : ∀ tail ∈ (adaptor.container.name ++ "<").tails, tail ≠ [] →
      ¬ (pattern <+: tail ∨ tail <+: pattern))
    (clear : ∀ piece ∈ [", deque<".toList, ", allocator<".toList, ">>>".toList],
      IsClear pattern piece) (text : Text) :
    Text.Apart pattern (adaptor.spelled [] [] name.text) text := by
  rw [spelled_eq_woven]
  exact (Text.apart_of_unrelated opening _).append (apart_woven absent clear text)

theorem not_mem_spelled {c : Char} {qualifier gap : Text} (other : Text.isIdentifierChar c = false)
    (unqualified : c ∉ qualifier) (closed : c ∉ gap) (sign : c ∉ ("<>, " : Text)) :
    c ∉ adaptor.spelled qualifier gap name.text := by
  have apart {d : Char} (isSign : d ∈ ("<>, " : Text)) : c ≠ d := fun same =>
    sign (same ▸ isSign)
  have signs : c ≠ '<' ∧ c ≠ '>' ∧ c ≠ ',' ∧ c ≠ ' ' :=
    ⟨apart (by decide), apart (by decide), apart (by decide), apart (by decide)⟩
  have word {text : Text} (identifier : IsIdentifier text) : c ∉ text := identifier.not_mem other
  have container : c ∉ adaptor.container.name := word (by cases adaptor <;> decide)
  have element : c ∉ name.text := word name.identifier
  have deque : c ∉ ("deque" : Text) := word (by decide)
  have allocator : c ∉ ("allocator" : Text) := word (by decide)
  rw [← List.append_nil (adaptor.spelled qualifier gap name.text), spelled_append]
  simp only [List.mem_append, List.mem_cons, List.not_mem_nil, or_false, not_or]
  tauto

theorem trim_printed :
    adaptor.printed name.text ≠ [] ∧
      Text.trim (adaptor.printed name.text) = adaptor.printed name.text := by
  have start : ("std::" : Text) ≠ [] ∧ Text.trim "std::" = "std::" := by decide
  have stop : (">" : Text) ≠ [] ∧ Text.trim ">" = ">" := by decide
  refine ⟨List.append_ne_nil_of_right_ne_nil _ stop.1, ?_⟩
  rw [printed, spelled]
  simpa only [List.append_assoc] using Text.trim_append_append start stop
    (adaptor.container.name ++ "<" ++ name.text ++ ", " ++ "std::" ++ "deque<" ++ name.text ++
      ", " ++ "std::" ++ "allocator<" ++ name.text ++ ">" ++ " " ++ ">" ++ " ")

/-- Up to the default arguments, simplifying an adaptor takes away qualifiers and gaps. -/
theorem shortenStandardNames_printed :
    shortenStandardNames (front.text ++ (adaptor.printed name.text ++ back.text)) =
      dropDefaultArguments (front.text ++ (adaptor.spelled [] [] name.text ++ back.text)) := by
  have colon : ':' ∉ front.text ++ (adaptor.spelled [] [] name.text ++ back.text) :=
    List.not_mem_append (front.not_mem (by decide)) (List.not_mem_append
      (adaptor.not_mem_spelled name (by decide) (by decide) (by decide) (by decide))
      (back.not_mem (by decide)))
  have qualifier : ¬ "__gnu_cxx::".toList <:+:
      front.text ++ (adaptor.spelled [] [] name.text ++ back.text) := fun inside =>
    colon (inside.mem (by decide))
  have bracketed {text : Text} (absent : '<' ∉ text) : ¬ traitsEnd <:+: text := fun inside =>
    absent (inside.mem (by decide))
  have opening : Text.Apart traitsEnd front.text
      (adaptor.spelled [] [] name.text ++ back.text) := by
    refine Text.apart_of_ended (bracketed (front.not_mem (by decide))) ?_
    rw [head?_spelled_append]
    cases adaptor <;> decide
  have within (text : Text) :
      Text.Apart traitsEnd (adaptor.spelled [] [] name.text) text :=
    adaptor.apart_spelled name (bracketed (name.identifier.not_mem (by decide)))
      (by cases adaptor <;> decide) (by decide) text
  have traits : ¬ traitsEnd <:+: front.text ++ (adaptor.spelled [] [] name.text ++ back.text) := by
    rw [Text.infix_append_of_apart opening, Text.infix_append_of_apart (within _)]
    exact bracketed (back.not_mem (by decide))
  rw [shortenStandardNames, printed, closeUp_spelled, removeAll_spelled, Text.removeAll,
    Text.replaceAll_of_not_infix [] qualifier, foldCharTypedefs_of_traitsEnd traits]

theorem carryOutBindings_printed :
    carryOutBindings (front.text ++ (adaptor.printed name.text ++ back.text)) =
      Text.trimStart front.text ++ (adaptor.printed name.text ++ Text.trimEnd back.text) := by
  have bracket : '[' ∉ front.text ++ (adaptor.printed name.text ++ back.text) :=
    List.not_mem_append (front.not_mem (by decide)) (List.not_mem_append
      (adaptor.not_mem_spelled name (by decide) (by decide) (by decide) (by decide))
      (back.not_mem (by decide)))
  have clauses : ¬ "[with".toList <:+:
      front.text ++ (adaptor.printed name.text ++ back.text) := fun inside =>
    bracket (inside.mem (by decide))
  obtain ⟨solid, trimmed⟩ := adaptor.trim_printed name
  rw [carryOutBindings_of_absent clauses, Text.trim_append_append_of_trimmed solid trimmed]

end

end Adaptor

end CompilerFront.Simplify
