import CompilerFront.Simplify.Fragment
import CompilerFront.Proofs.Text.Occurrence
import Mathlib.Algebra.Order.Group.Nat

set_option autoImplicit false

namespace CompilerFront.Simplify

def brackets : List (Char × Char) := [('(', ')'), ('[', ']'), ('{', '}'), ('<', '>')]

/-- Text in which every bracket is closed by one of its kind, the inner ones first. -/
inductive Balanced : Text → Prop
  | empty : Balanced []
  | plain (c : Char) (rest : Text) : bracketStep c = 0 → Balanced rest → Balanced (c :: rest)
  | enclosed (opening closing : Char) (inner rest : Text) : (opening, closing) ∈ brackets →
      Balanced inner → Balanced rest → Balanced (opening :: (inner ++ closing :: rest))

/-- Every comma stands in brackets by the depth that is counted, if the text begins at a given
depth. -/
def HasInnerCommas (depth : Int32) (text : Text) : Prop :=
  ∀ before behind, text = before ++ ',' :: behind → depth + bracketDepth before ≠ 0

/-- As many brackets are opened as are closed, and no comma stands outside of them. -/
structure IsArgument (text : Text) : Prop where
  depth : bracketDepth text = 0
  commas : HasInnerCommas 0 text

def openings : Text := ['<', '[', '{', '(']

def closings : Text := ['>', ']', '}', ')']

/-- Opening brackets minus closing ones, however many there are. -/
def nesting (text : Text) : Int := (text.countP (· ∈ openings) : Int) - text.countP (· ∈ closings)

theorem nesting_append (first second : Text) :
    nesting (first ++ second) = nesting first + nesting second := by
  simp only [nesting, List.countP_append]
  omega

theorem bracketStep_eq_ofInt (c : Char) : bracketStep c = Int32.ofInt (nesting [c]) := by
  have each : ∀ d ∈ ("<[{(>]})" : Text), bracketStep d = Int32.ofInt (nesting [d]) := by decide
  by_cases bracket : c ∈ ("<[{(>]})" : Text)
  · exact each c bracket
  · have neither : c ∉ openings ∧ c ∉ closings :=
      not_or.mp (List.mem_append.not.mp bracket)
    have flat : nesting [c] = 0 := by simp only [nesting, List.countP_singleton, neither]; rfl
    rw [bracketStep_eq_zero bracket, flat]
    rfl

theorem bracketDepth_eq_ofInt (text : Text) : bracketDepth text = Int32.ofInt (nesting text) := by
  induction text with
  | nil => rfl
  | cons c rest ih =>
      have parts : nesting (c :: rest) = nesting [c] + nesting rest := nesting_append [c] rest
      rw [bracketDepth_cons, parts, Int32.ofInt_add, ← ih, ← bracketStep_eq_ofInt]

theorem nesting_replicate (count : Nat) (c : Char) :
    nesting (List.replicate count c) = count * nesting [c] := by
  induction count with
  | zero => rw [Int.natCast_zero, Int.zero_mul]; rfl
  | succ count ih =>
      have parts : nesting (c :: List.replicate count c) = _ := nesting_append [c] _
      rw [List.replicate_succ, parts, ih, Int.natCast_succ, Int.add_mul, Int.one_mul, Int.add_comm]

theorem bracketStep_of_mem_brackets :
    ∀ pair ∈ brackets, bracketStep pair.1 = 1 ∧ bracketStep pair.2 = -1 := by decide

theorem bracketDepth_of_balanced {text : Text} (balanced : Balanced text) :
    bracketDepth text = 0 := by
  induction balanced with
  | empty => rfl
  | plain c rest plain _ ih => rw [bracketDepth_cons, plain, ih, Int32.add_zero]
  | enclosed opening closing inner rest pair _ _ insideZero behindZero =>
      obtain ⟨up, down⟩ := bracketStep_of_mem_brackets _ pair
      rw [bracketDepth_cons, bracketDepth_append, bracketDepth_cons, up, down, insideZero,
        behindZero]
      rfl

theorem balanced_of_plain {text : Text} (plain : text.all fun c => bracketStep c = 0) :
    Balanced text := by
  induction text with
  | nil => exact .empty
  | cons c rest ih =>
      rw [List.all_cons, Bool.and_eq_true, decide_eq_true_eq] at plain
      exact .plain c rest plain.1 (ih plain.2)

theorem Balanced.append {first second : Text} (one : Balanced first) (other : Balanced second) :
    Balanced (first ++ second) := by
  induction one with
  | empty => exact other
  | plain c rest plain _ ih => exact .plain c (rest ++ second) plain ih
  | enclosed opening closing inner rest pair inside _ _ ih =>
      rw [List.cons_append, List.append_assoc, List.cons_append]
      exact .enclosed opening closing inner (rest ++ second) pair inside ih

section

variable {depth : Int32} {part rest : Text}

theorem hasInnerCommas_cons {c : Char} :
    HasInnerCommas depth (c :: rest) ↔
      ¬ (c = ',' ∧ depth = 0) ∧ HasInnerCommas (depth + bracketStep c) rest := by
  constructor
  · intro inner
    refine ⟨?_, fun before behind same => ?_⟩
    · rintro ⟨rfl, rfl⟩
      exact inner [] rest rfl rfl
    · rw [Int32.add_assoc, ← bracketDepth_cons]
      exact inner (c :: before) behind (by rw [same, List.cons_append])
  · rintro ⟨first, later⟩ before behind same
    cases before with
    | nil =>
        obtain ⟨rfl, -⟩ := List.cons.inj same
        rw [bracketDepth_nil, Int32.add_zero]
        exact fun outside => first ⟨rfl, outside⟩
    | cons d before =>
        obtain ⟨rfl, inRest⟩ := List.cons.inj same
        rw [bracketDepth_cons, ← Int32.add_assoc]
        exact later before behind inRest

instance decidableHasInnerCommas : ∀ depth text, Decidable (HasInnerCommas depth text)
  | _, [] => isTrue fun _ _ same => by simp at same
  | depth, c :: rest =>
    have := decidableHasInnerCommas (depth + bracketStep c) rest
    decidable_of_iff _ hasInnerCommas_cons.symm

theorem hasInnerCommas_of_not_mem {text : Text} (absent : ',' ∉ text) (depth : Int32) :
    HasInnerCommas depth text := by
  rintro before behind rfl
  exact absurd (List.mem_append_right before List.mem_cons_self) absent

theorem HasInnerCommas.append {first second : Text} (inner : HasInnerCommas depth first)
    (later : HasInnerCommas (depth + bracketDepth first) second) :
    HasInnerCommas depth (first ++ second) := by
  intro before behind same
  rcases Text.append_eq_append_cons same with ⟨between, rfl, rest⟩ | ⟨between, front, -⟩
  · rw [bracketDepth_append, ← Int32.add_assoc]
    exact later between behind rest
  · exact inner before between front

/-- A piece that is under way takes up all text with inner commas. -/
theorem splitArgumentsFrom_append (inner : HasInnerCommas depth part) {first : Text}
    {others : List Text}
    (split : splitArgumentsFrom (depth + bracketDepth part) rest = first :: others) :
    splitArgumentsFrom depth (part ++ rest) = (part ++ first) :: others := by
  induction part generalizing depth with
  | nil => simpa using split
  | cons c part ih =>
      obtain ⟨goesOn, later⟩ := hasInnerCommas_cons.mp inner
      rw [bracketDepth_cons, ← Int32.add_assoc] at split
      rw [List.cons_append, splitArgumentsFrom, if_neg goesOn, ih later split,
        Text.consHead, List.cons_append]

theorem splitArguments_of_isArgument (argument : IsArgument part) :
    splitArguments part = [part] := by
  have ended : splitArgumentsFrom (0 + bracketDepth part) [] = [[]] := rfl
  have split := splitArgumentsFrom_append argument.commas ended
  rwa [List.append_nil] at split

theorem splitArguments_append_comma (argument : IsArgument part) (rest : Text) :
    splitArguments (part ++ ',' :: rest) = part :: splitArguments rest := by
  have cut : splitArgumentsFrom (0 + bracketDepth part) (',' :: rest) =
      [] :: splitArguments rest := by
    rw [argument.depth]
    rfl
  have split := splitArgumentsFrom_append argument.commas cut
  rwa [List.append_nil] at split

end

/-- Arguments joined with commas are cut apart again. -/
theorem splitArguments_join {parts : List Text} (started : parts ≠ [])
    (arguments : ∀ part ∈ parts, IsArgument part) :
    splitArguments (Text.joinWith "," parts) = parts := by
  induction parts with
  | nil => exact absurd rfl started
  | cons part parts ih =>
      obtain ⟨argument, others⟩ := List.forall_mem_cons.mp arguments
      cases parts with
      | nil => rw [Text.joinWith_singleton, splitArguments_of_isArgument argument]
      | cons next parts =>
          rw [Text.joinWith_cons_cons, List.append_assoc]
          have split := splitArguments_append_comma argument
            (Text.joinWith "," (next :: parts))
          rw [ih (List.cons_ne_nil next parts) others] at split
          exact split

def enclosedComma (pairs : Nat) : Text :=
  List.replicate pairs '(' ++ ',' :: List.replicate pairs ')'

/-- Beyond that length a part may be cut at a comma in brackets: so many are open that the depth is
back at zero. -/
theorem splitArguments_enclosedComma :
    nesting (enclosedComma (2 ^ 32)) = 0 ∧
      (∀ before behind, enclosedComma (2 ^ 32) = before ++ ',' :: behind →
        nesting before ≠ 0) ∧
      splitArguments (Text.joinWith "," [enclosedComma (2 ^ 32)]) =
        [List.replicate (2 ^ 32) '(', List.replicate (2 ^ 32) ')'] := by
  let opening := List.replicate (2 ^ 32) '('
  let closing := List.replicate (2 ^ 32) ')'
  have opened : nesting opening = 2 ^ 32 := nesting_replicate (2 ^ 32) '('
  have closed : nesting closing = -2 ^ 32 := nesting_replicate (2 ^ 32) ')'
  have front : ',' ∉ opening := fun inside => absurd (List.eq_of_mem_replicate inside) (by decide)
  have back : ',' ∉ closing := fun inside => absurd (List.eq_of_mem_replicate inside) (by decide)
  refine ⟨?_, fun before behind same => ?_, ?_⟩
  · have comma : nesting (',' :: closing) = 0 + nesting closing := nesting_append "," closing
    have parts : nesting (enclosedComma (2 ^ 32)) =
        nesting opening + nesting (',' :: closing) := nesting_append opening (',' :: closing)
    rw [parts, comma, opened, closed]
    rfl
  · rcases Text.append_eq_append_cons same with ⟨between, first, rest⟩ | ⟨between, first, -⟩
    · cases between with
      | nil =>
          rw [first, List.append_nil, opened]
          decide
      | cons c between =>
          have later : closing = between ++ ',' :: behind := (List.cons.inj rest).2
          rw [later] at back
          exact absurd (List.mem_append_right between List.mem_cons_self) back
    · have earlier : opening = before ++ ',' :: between := first
      rw [earlier] at front
      exact absurd (List.mem_append_right before List.mem_cons_self) front
  · have around {text : Text} (depth : Int32.ofInt (nesting text) = 0) (comma : ',' ∉ text) :
        IsArgument text :=
      ⟨(bracketDepth_eq_ofInt text).trans depth, hasInnerCommas_of_not_mem comma 0⟩
    have one : IsArgument opening := around (opened ▸ rfl) front
    have other : IsArgument closing := around (closed ▸ rfl) back
    rw [Text.joinWith_singleton, enclosedComma, splitArguments_append_comma one,
      splitArguments_of_isArgument other]

/-- The pieces hold no characters but those of the text. -/
theorem mem_of_mem_splitArgumentsFrom {depth : Int32} {text piece : Text} {c : Char}
    (listed : piece ∈ splitArgumentsFrom depth text) (inside : c ∈ piece) : c ∈ text := by
  induction text generalizing depth piece with
  | nil =>
      rw [List.mem_singleton.mp listed] at inside
      cases inside
  | cons d rest ih =>
      rw [splitArgumentsFrom] at listed
      split at listed
      · rcases List.mem_cons.mp listed with rfl | later
        · cases inside
        · exact List.mem_cons_of_mem d (ih later inside)
      · obtain ⟨first, others, shape⟩ :=
          List.exists_cons_of_ne_nil (splitArgumentsFrom_ne_nil (depth + bracketStep d) rest)
        rw [shape, Text.consHead] at listed
        rcases List.mem_cons.mp listed with rfl | later
        · rcases List.mem_cons.mp inside with rfl | deeper
          · exact List.mem_cons_self
          · exact List.mem_cons_of_mem d (ih (shape ▸ List.mem_cons_self) deeper)
        · exact List.mem_cons_of_mem d (ih (shape ▸ List.mem_cons_of_mem first later) inside)

end CompilerFront.Simplify
