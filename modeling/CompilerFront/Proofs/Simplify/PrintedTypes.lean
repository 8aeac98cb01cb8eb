import CompilerFront.Proofs.Simplify.PlainCode
import CompilerFront.Proofs.Simplify.SequenceTypes

set_option autoImplicit false

namespace CompilerFront.Simplify

def commaSeparator (blanks : Nat) : Text := ',' :: List.replicate blanks ' '

def commaList (blanks : Nat) (texts : List Text) : Text :=
  Text.joinWith (commaSeparator blanks) texts

section

variable {blanks : Nat} {texts : List Text}

@[simp] theorem commaList_nil (blanks : Nat) : commaList blanks [] = [] := rfl

@[simp] theorem commaList_singleton (blanks : Nat) (text : Text) : commaList blanks [text] = text :=
  Text.joinWith_singleton (commaSeparator blanks) text

theorem commaList_cons_cons (blanks : Nat) (first second : Text) (others : List Text) :
    commaList blanks (first :: second :: others) =
      first ++ (commaSeparator blanks ++ commaList blanks (second :: others)) := by
  rw [commaList, Text.joinWith_cons_cons, commaList, List.append_assoc]

theorem mem_commaSeparator {c : Char} (inside : c ∈ commaSeparator blanks) : c = ',' ∨ c = ' ' :=
  (List.mem_cons.mp inside).imp_right List.eq_of_mem_replicate

theorem not_mem_commaList {c : Char} (comma : c ≠ ',') (space : c ≠ ' ')
    (absent : ∀ text ∈ texts, c ∉ text) : c ∉ commaList blanks texts := by
  intro inside
  rcases Text.mem_joinWith inside with between | ⟨text, named, within⟩
  · exact (mem_commaSeparator between).elim comma space
  · exact absent text named within

/-- No pattern begins between the texts of a list that begins neither with a comma nor a blank. -/
theorem apart_commaSeparator {pattern : Text} (solid : pattern ≠ [])
    (comma : pattern.head? ≠ some ',') (space : pattern.head? ≠ some ' ') (blanks : Nat)
    (text : Text) :
    Text.Apart pattern (commaSeparator blanks) text := by
  refine Text.apart_of_head? solid (fun c inside => ?_) text
  rcases mem_commaSeparator inside with rfl | rfl
  · exact comma
  · exact space

theorem trim_commaList (solid : ∀ text ∈ texts, text ≠ [] ∧ Text.trim text = text) :
    Text.trim (commaList blanks texts) = commaList blanks texts := by
  rcases texts.eq_nil_or_concat with rfl | ⟨front, last, rfl⟩
  · rfl
  rw [List.concat_eq_append] at solid ⊢
  obtain ⟨startsSolid, ended⟩ := solid last (List.mem_append_right front List.mem_cons_self)
  refine Text.trim_eq_self_iff.mpr ⟨?_, ?_⟩
  · cases front with
    | nil => simpa [commaList] using (Text.trim_eq_self_iff.mp ended).1
    | cons first others =>
        obtain ⟨started, begun⟩ := solid first (by simp)
        rw [commaList, List.cons_append, Text.head?_joinWith _ started]
        exact (Text.trim_eq_self_iff.mp begun).1
  · rw [commaList, Text.getLast?_joinWith_concat _ front startsSolid]
    exact (Text.trim_eq_self_iff.mp ended).2

/-- Rewriting a list rewrites each item, if it does so up to the comma behind the item. -/
theorem rewrite_commaList {Item : Type} {rewrite : Text → Text} {before after : Item → Text}
    {items : List Item} (nothing : rewrite [] = [])
    (whole : ∀ item ∈ items, rewrite (before item) = after item)
    (front : ∀ item ∈ items, ∀ rest, rewrite (before item ++ (commaSeparator blanks ++ rest)) =
      after item ++ (commaSeparator blanks ++ rewrite rest)) :
    rewrite (commaList blanks (items.map before)) = commaList blanks (items.map after) := by
  induction items with
  | nil => exact nothing
  | cons item others ih =>
      obtain ⟨wholeFirst, wholeOthers⟩ := List.forall_mem_cons.mp whole
      obtain ⟨frontFirst, frontOthers⟩ := List.forall_mem_cons.mp front
      cases others with
      | nil => simpa using wholeFirst
      | cons second others =>
          have behind := ih wholeOthers frontOthers
          rw [List.map_cons, List.map_cons] at behind
          rw [List.map_cons, List.map_cons, List.map_cons, List.map_cons, commaList_cons_cons,
            commaList_cons_cons, frontFirst, behind]

/-- The blanks behind a comma stay where they are when brackets are closed up. -/
theorem closedFrom_commaSeparator (blanks : Nat) (text rest : Text) :
    closedFrom none (text ++ (commaSeparator blanks ++ rest)) =
      closedFrom none text ++ (commaSeparator blanks ++ closedFrom none rest) := by
  have padded (count : Nat) : closedFrom none (List.replicate count ' ' ++ rest) =
      List.replicate count ' ' ++ closedFrom none rest := by
    induction count with
    | zero => rfl
    | succ count ih =>
        rw [List.replicate_succ, List.cons_append, closedFrom_cons fun fires =>
          absurd fires.1 (by decide), closedFrom_of_ne (by decide), ih, List.cons_append]
  rw [commaSeparator, List.cons_append, closedFrom_append_cons (by decide) (by decide), padded,
    List.cons_append]

/-- A pattern without a comma and without blanks is replaced in front of a comma and behind it. -/
theorem replaceAll_commaSeparator {pattern : Text} (solid : pattern ≠ []) (comma : ',' ∉ pattern)
    (space : ' ' ∉ pattern) (replacement : Text) (blanks : Nat) (text rest : Text) :
    Text.replaceAll pattern replacement (text ++ (commaSeparator blanks ++ rest)) =
      Text.replaceAll pattern replacement text ++
        (commaSeparator blanks ++ Text.replaceAll pattern replacement rest) := by
  have between : Text.Apart pattern (List.replicate blanks ' ') rest := by
    refine Text.apart_of_head? solid (fun c padding head => space ?_) rest
    rw [← List.eq_of_mem_replicate padding]
    exact List.mem_of_head? head
  rw [commaSeparator, List.cons_append, Text.replaceAll_append_cons comma,
    Text.replaceAll_append_of_apart between, List.cons_append]

end

namespace SequenceType

variable {qualifier gap : Text}

@[simp] theorem behind_nil (type : SequenceType) : type.behind [] = [] := by cases type <;> rfl

theorem spelled_sequence (qualifier gap : Text) (kind : Sequence) (element : SequenceType) :
    (sequence kind element).spelled qualifier gap =
      qualifier ++ kind.container.name ++ '<' :: (element.spelled qualifier gap ++
        ',' :: (' ' :: (qualifier ++ "allocator") ++ '<' :: (element.spelled qualifier gap ++
          (element.behind gap ++ '>' :: (gap ++ ['>']))))) := by
  have further : ("allocator<" : Text) = "allocator" ++ "<" := rfl
  rw [spelled, further]
  simp only [List.append_assoc, List.cons_append]
  rfl

theorem not_mem_spelled {c : Char} (other : Text.isIdentifierChar c = false)
    (unqualified : c ∉ qualifier) (closed : c ∉ gap) (sign : c ∉ ("<>, " : Text))
    (type : SequenceType) : c ∉ type.spelled qualifier gap := by
  induction type with
  | named name => exact name.identifier.not_mem other
  | sequence kind element ih =>
      have name : c ∉ kind.container.name := kind.isIdentifier_name.not_mem other
      have allocator : c ∉ ("allocator" : Text) := IsIdentifier.not_mem (by decide) other
      have space : c ∉ element.behind gap := by
        cases element with
        | named _ => exact List.not_mem_nil
        | sequence _ _ => exact closed
      have apart {d : Char} (isSign : d ∈ ("<>, " : Text)) : c ≠ d := fun same =>
        sign (same ▸ isSign)
      have signs : c ≠ '<' ∧ c ≠ '>' ∧ c ≠ ',' ∧ c ≠ ' ' :=
        ⟨apart (by decide), apart (by decide), apart (by decide), apart (by decide)⟩
      rw [spelled_sequence]
      simp only [List.mem_append, List.mem_cons, List.not_mem_nil, or_false, not_or]
      tauto

/-- Brackets behind a type are closed up, and the type on its own. -/
theorem closedFrom_spelled_append (qualifier : Text) (type : SequenceType) :
    closedFrom none (type.spelled qualifier " " ++ (type.behind " " ++ "> >")) =
      closedFrom none (type.spelled qualifier " ") ++ ">>" := by
  cases type with
  | named name =>
      have plain (text : Text) (solid : ' ' ∉ text) : closedFrom none text = text :=
        closedFrom_of_not_mem (by decide) solid none
      have solid : ' ' ∉ name.text := name.identifier.not_mem (by decide)
      have split : name.text ++ ("> >" : Text) = name.text ++ '>' :: " >" := rfl
      have closing : closedFrom (some '>') " >" = ">" := by decide
      rw [spelled, behind, List.nil_append, split, closedFrom_append_bracket, plain _ solid,
        plain _ (by simpa using solid), closing, List.append_assoc]
      rfl
  | sequence kind element =>
      obtain ⟨front, shape⟩ : ∃ front, (sequence kind element).spelled qualifier " " =
          front ++ ['>'] := ⟨_, rfl⟩
      have closing : closedFrom (some '>') " > >" = ">>" := by decide
      have split : front ++ ['>'] ++ ((" " : Text) ++ "> >") = front ++ '>' :: " > >" := by simp
      rw [shape, behind, split, closedFrom_append_bracket, closing]

theorem closedFrom_spelled (unclosed : '>' ∉ qualifier) (type : SequenceType) :
    closedFrom none (type.spelled qualifier " ") = type.spelled qualifier [] := by
  induction type with
  | named name =>
      exact closedFrom_of_not_mem (c := '>') (by decide) (name.identifier.not_mem (by decide)) none
  | sequence kind element ih =>
      have plain {text : Text} (absent : '>' ∉ text) : closedFrom none text = text :=
        closedFrom_of_not_mem (by decide) absent none
      have name : '>' ∉ kind.container.name := kind.isIdentifier_name.not_mem (by decide)
      have front : '>' ∉ qualifier ++ kind.container.name :=
        List.not_mem_append unclosed name
      have allocator : '>' ∉ ' ' :: (qualifier ++ "allocator") :=
        List.not_mem_cons_of_ne_of_not_mem (by decide) (List.not_mem_append unclosed (by decide))
      have closing := closedFrom_spelled_append qualifier element
      have brackets : ("> >" : Text) = '>' :: (" " ++ ['>']) := rfl
      rw [brackets] at closing
      rw [spelled_sequence, spelled_sequence, closedFrom_append_cons (by decide) (by decide),
        closedFrom_append_cons (by decide) (by decide),
        closedFrom_append_cons (by decide) (by decide), plain front, plain allocator, closing, ih,
        behind_nil]
      rfl

theorem removeAll_spelled (type : SequenceType) :
    Text.removeAll "std::" (type.spelled "std::" []) = type.spelled [] [] := by
  induction type with
  | named name =>
      have absent : ¬ "std::".toList <:+: name.text := fun inside =>
        name.identifier.not_mem (c := ':') (by decide) (inside.mem (by decide))
      exact Text.replaceAll_of_not_infix [] absent
  | sequence kind element ih =>
      have name : Text.replaceAll "std::" [] ("std::" ++ kind.container.name) =
          kind.container.name := by
        cases kind <;> decide
      have allocator : Text.replaceAll "std::" [] (' ' :: ("std::" ++ "allocator")) =
          ' ' :: "allocator" := by decide
      have bracket : Text.replaceAll "std::" [] ([] ++ ['>']) = ['>'] := by decide
      rw [Text.removeAll] at ih
      rw [spelled_sequence, spelled_sequence, Text.removeAll, behind_nil, List.nil_append,
        Text.replaceAll_append_cons (by decide), Text.replaceAll_append_cons (by decide),
        Text.replaceAll_append_cons (by decide), Text.replaceAll_append_cons (by decide), name,
        allocator, bracket, ih]
      rfl

/-- Each container mentions its element type twice. -/
theorem two_pow_depth_le (type : SequenceType) : 2 ^ type.depth ≤ type.printed.length := by
  induction type with
  | named name => exact List.length_pos_of_ne_nil name.identifier.ne_nil
  | sequence kind element ih =>
      rw [printed] at ih
      rw [printed, spelled_sequence, depth, Nat.pow_succ]
      simp only [List.length_append, List.length_cons]
      omega

theorem trim_printed (type : SequenceType) :
    type.printed ≠ [] ∧ Text.trim type.printed = type.printed := by
  cases type with
  | named name => exact ⟨name.identifier.ne_nil, trim_of_isIdentifier name.identifier⟩
  | sequence kind element =>
      have front : ("std::" : Text) ≠ [] ∧ Text.trim "std::" = "std::" := by decide
      have back : (">" : Text) ≠ [] ∧ Text.trim ">" = ">" := by decide
      refine ⟨List.append_ne_nil_of_right_ne_nil _ back.1, ?_⟩
      rw [printed, spelled]
      simp only [List.append_assoc]
      simpa only [List.append_assoc] using Text.trim_append_append front back
        (kind.container.name ++ "<" ++ element.spelled "std::" " " ++ ", " ++ "std::" ++
          "allocator<" ++ element.spelled "std::" " " ++ element.behind " " ++ ">" ++ " ")

theorem apart_traitsEnd (type : SequenceType) {rest : Text}
    (ended : ∀ c ∈ rest.head?, c ∉ traitsEnd.tail) :
    Text.Apart traitsEnd (type.written fun _ _ => false) rest := by
  induction type generalizing rest with
  | named name =>
      have absent : ¬ traitsEnd <:+: name.text := fun inside =>
        name.identifier.not_mem (c := '<') (by decide) (inside.mem (by decide))
      exact Text.apart_of_ended absent ended
  | sequence kind element ih =>
      have opening (text : Text) : Text.Apart traitsEnd kind.opening text :=
        Text.apart_of_unrelated (by cases kind <;> decide) text
      have allocator (text : Text) : Text.Apart traitsEnd allocatorOpening text :=
        Text.apart_of_unrelated (by decide) text
      have closing (text : Text) : Text.Apart traitsEnd ">>" text :=
        Text.apart_of_unrelated (by decide) text
      have inner {text : Text} (c : Char) (front : text.head? = some c)
          (other : c ∉ traitsEnd.tail) :
          Text.Apart traitsEnd (element.written fun _ _ => false) text :=
        ih fun d head => Option.some.inj (front.symm.trans head) ▸ other
      have whole : (sequence kind element).written (fun _ _ => false) = _ := written_of_full rfl
      rw [whole]
      exact (opening _).append ((inner ',' rfl (by decide)).append ((allocator _).append
        ((inner '>' rfl (by decide)).append (closing _))))

end SequenceType

theorem traitsEnd_absent (blanks : Nat) (types : List SequenceType) :
    ¬ traitsEnd <:+: commaList blanks (types.map (SequenceType.written fun _ _ => false)) := by
  induction types with
  | nil =>
      rw [List.map_nil, commaList_nil]
      decide
  | cons type others ih =>
      cases others with
      | nil =>
          have apart : Text.Apart traitsEnd (type.written fun _ _ => false) [] :=
            type.apart_traitsEnd (by simp)
          have whole := Text.infix_append_of_apart apart
          rw [List.append_nil] at whole
          rw [List.map_singleton, commaList_singleton, whole]
          decide
      | cons second others =>
          rw [List.map_cons] at ih
          have between (text : Text) : Text.Apart traitsEnd (commaSeparator blanks) text :=
            apart_commaSeparator (by decide) (by decide) (by decide) blanks text
          have ended (text : Text) :
              ∀ c ∈ (commaSeparator blanks ++ text).head?, c ∉ traitsEnd.tail := by
            intro c head
            obtain rfl : ',' = c := Option.some.inj head
            decide
          rw [List.map_cons, List.map_cons, commaList_cons_cons,
            Text.infix_append_of_apart (type.apart_traitsEnd (ended _)),
            Text.infix_append_of_apart (between _)]
          exact ih

theorem closeUp_commaList_printed (blanks : Nat) (types : List SequenceType) :
    closeUp (commaList blanks (types.map SequenceType.printed)) =
      commaList blanks (types.map (SequenceType.spelled "std::" [])) := by
  have each (type : SequenceType) : closedFrom none type.printed = type.spelled "std::" [] :=
    type.closedFrom_spelled (by decide)
  rw [closeUp_eq_closedFrom]
  refine rewrite_commaList rfl (fun type _ => each type) fun type _ rest => ?_
  rw [closedFrom_commaSeparator, each]

theorem removeAll_commaList_spelled (blanks : Nat) (types : List SequenceType) :
    Text.removeAll "std::" (commaList blanks (types.map (SequenceType.spelled "std::" []))) =
      commaList blanks (types.map (SequenceType.written fun _ _ => false)) := by
  have each (type : SequenceType) : Text.replaceAll "std::" [] (type.spelled "std::" []) =
      type.written fun _ _ => false := type.removeAll_spelled.trans type.spelled_nil_nil
  rw [Text.removeAll]
  refine rewrite_commaList (Text.replaceAll_nil _ _) (fun type _ => each type)
    fun type _ rest => ?_
  rw [replaceAll_commaSeparator (by decide) (by decide) (by decide), each]

/-- Up to the default arguments, simplifying printed types takes away qualifiers and gaps. -/
theorem simplifyFragment_printed (blanks : Nat) (types : List SequenceType) :
    simplifyFragment 1 (commaList blanks (types.map SequenceType.printed)) =
      dropDefaultArguments
        (commaList blanks (types.map (SequenceType.written fun _ _ => false))) := by
  have each {c : Char} {f : SequenceType → Text} (absent : ∀ type, c ∉ f type) :
      ∀ text ∈ types.map f, c ∉ text := by
    intro text inside
    obtain ⟨type, -, rfl⟩ := List.mem_map.mp inside
    exact absent type
  have clauses : ¬ "[with".toList <:+:
      commaList blanks (types.map SequenceType.printed) := fun inside =>
    not_mem_commaList (c := '[') (by decide) (by decide) (each fun type =>
      type.not_mem_spelled (by decide) (by decide) (by decide) (by decide)) (inside.mem (by decide))
  have trimmed : Text.trim (commaList blanks (types.map SequenceType.printed)) =
      commaList blanks (types.map SequenceType.printed) := by
    refine trim_commaList fun text inside => ?_
    obtain ⟨type, -, rfl⟩ := List.mem_map.mp inside
    exact type.trim_printed
  have plain : ¬ "__gnu_cxx::".toList <:+:
      commaList blanks (types.map (SequenceType.written fun _ _ => false)) := fun inside =>
    not_mem_commaList (c := ':') (by decide) (by decide) (each fun type =>
      type.spelled_nil_nil ▸ type.not_mem_spelled (by decide) (by decide) (by decide) (by decide))
      (inside.mem (by decide))
  rw [simplifyFragment_one, carryOutBindings_of_absent clauses, trimmed, shortenStandardNames,
    closeUp_commaList_printed, removeAll_commaList_spelled, Text.removeAll,
    Text.replaceAll_of_not_infix [] plain,
    foldCharTypedefs_of_traitsEnd (traitsEnd_absent blanks types)]

end CompilerFront.Simplify
