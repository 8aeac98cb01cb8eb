import CompilerFront.Simplify.Fragment
import CompilerFront.Proofs.Simplify.Arguments
import CompilerFront.Proofs.Simplify.IdentifierTokens
import CompilerFront.Proofs.Simplify.PlainCode
import CompilerFront.Proofs.Text.Trim

set_option autoImplicit false

/-!
Clauses as the compiler prints them. The names are read back with the values they are bound to
exactly if no value holds a closing square bracket, and then the clause is removed from the code:
the first such bracket ends the clause, whichever bracket it closes.
-/
namespace CompilerFront.Simplify

def clauseRule : Text.Rule := fun _ text => (clause? text).map fun clause => ([], clause.2)

theorem isBlind_clauseRule : Text.IsBlind clauseRule := fun _ _ => rfl

section

variable {front body behind : Text}

/-- A clause at the front of a text ends at the first closing bracket, and the blanks in front of
its body are left out. -/
theorem clause?_of_closed {blanks : Text} (blank : Text.isAllBlank blanks = true)
    (started : body ≠ []) (solid : ∀ c ∈ body.head?, Text.isBlank c = false) (open_ : ']' ∉ body)
    (behind : Text) :
    clause? ("[with" ++ (blanks ++ (body ++ ']' :: behind))) =
      some (body, ("[with" ++ (blanks ++ (body ++ [']'])) : Text).length) := by
  have taken : (body ++ ']' :: behind).takeWhile (· ≠ ']') = body :=
    Text.takeWhile_ne_append_cons open_ behind
  have opened : ("[with" : Text).isPrefixOf? ("[with" ++ (blanks ++ (body ++ ']' :: behind))) =
      some (blanks ++ (body ++ ']' :: behind)) := List.isPrefixOf?_eq_some_iff_append_eq.mpr rfl
  have inner : Text.trimStart (blanks ++ (body ++ ']' :: behind)) = body ++ ']' :: behind := by
    rw [Text.trimStart_append_of_isAllBlank blank, Text.trimStart_eq_self_iff,
      List.head?_append_of_ne_nil _ started]
    exact solid
  have closed : body.length ≠ (body ++ ']' :: behind).length := by
    rw [List.length_append, List.length_cons]
    omega
  simp only [clause?, opened, inner, taken]
  rw [if_neg (by simp [started])]
  simp only [List.length_append, List.length_cons, List.length_nil]
  congr 2
  omega

theorem clause?_of_body (started : body ≠ []) (solid : ∀ c ∈ body.head?, Text.isBlank c = false)
    (open_ : ']' ∉ body) (behind : Text) :
    clause? ("[with " ++ (body ++ ']' :: behind)) =
      some (body, ("[with " ++ (body ++ [']']) : Text).length) := by
  have blank : Text.isAllBlank [' '] = true := by decide
  exact clause?_of_closed blank started solid open_ behind

/-- No clause begins in a text without one, although a clause follows: a clause holds its first
character only once. -/
theorem clause?_of_apart (apart : ¬ "[with".toList <:+: front) (rest : Text) :
    ∀ tail, tail <:+ front → tail ≠ [] → clause? (tail ++ ("[with " ++ rest)) = none := by
  intro tail inside solid
  obtain ⟨c, others, rfl⟩ := List.exists_cons_of_ne_nil solid
  apply clause?_of_absent
  intro start
  have parts : '[' :: "with".toList <+: c :: (others ++ '[' :: ("with ".toList ++ rest)) := start
  obtain ⟨rfl, goesOn⟩ := List.cons_prefix_cons.mp parts
  rw [Text.prefix_append_cons_iff (by decide)] at goesOn
  have whole : "[with".toList <+: '[' :: others := List.cons_prefix_cons.mpr ⟨rfl, goesOn⟩
  exact apart (whole.isInfix.trans inside.isInfix)

theorem firstClause?_append {text : Text}
    (silent : ∀ tail, tail <:+ front → tail ≠ [] → clause? (tail ++ text) = none) :
    firstClause? (front ++ text) = firstClause? text := by
  induction front with
  | nil => rfl
  | cons c front ih =>
      have here : clause? (c :: (front ++ text)) = none :=
        silent (c :: front) (List.suffix_refl _) (List.cons_ne_nil c front)
      rw [List.cons_append, firstClause?, here]
      exact ih fun tail inside => silent tail (inside.trans (List.suffix_cons c front))

theorem firstClause?_of_clause? {text : Text} {length : Nat} (solid : text ≠ [])
    (found : clause? text = some (body, length)) : firstClause? text = some body := by
  obtain ⟨c, rest, rfl⟩ := List.exists_cons_of_ne_nil solid
  rw [firstClause?, found]

theorem removeClauses_append {text : Text}
    (silent : ∀ tail, tail <:+ front → tail ≠ [] → clause? (tail ++ text) = none) :
    removeClauses (front ++ text) = front ++ removeClauses text := by
  refine Text.edit_append_of_silent isBlind_clauseRule fun tail inside solid => ?_
  rw [clauseRule, silent tail inside solid]
  rfl

theorem removeClauses_of_clause? {text : Text} {length : Nat} (solid : text ≠ [])
    (positive : 0 < length) (found : clause? text = some (body, length)) :
    removeClauses text = removeClauses (text.drop length) := by
  have fired : clauseRule none text = some ([], length) := by
    rw [clauseRule, found]
    rfl
  exact Text.edit_of_fire isBlind_clauseRule solid positive fired

/-- The first clause of a text is read up to the first closing bracket, and removed with it. -/
theorem bindings_of_body (apart : ¬ "[with".toList <:+: front) (started : body ≠ [])
    (solid : ∀ c ∈ body.head?, Text.isBlank c = false) (open_ : ']' ∉ body) (behind : Text) :
    bindings (front ++ ("[with " ++ (body ++ ']' :: behind))) =
        (splitArguments body).filterMap binding? ∧
      removeClauses (front ++ ("[with " ++ (body ++ ']' :: behind))) =
        front ++ removeClauses behind := by
  have silent := clause?_of_apart apart (body ++ ']' :: behind)
  have found := clause?_of_body started solid open_ behind
  have text : "[with ".toList ++ (body ++ ']' :: behind) ≠ [] :=
    List.append_ne_nil_of_left_ne_nil (by decide) _
  constructor
  · rw [bindings, firstClause?_append silent, firstClause?_of_clause? text found]
  · have positive : 0 < ("[with " ++ (body ++ [']']) : Text).length :=
      List.length_pos_of_ne_nil (List.append_ne_nil_of_left_ne_nil (by decide) _)
    have left : ("[with " ++ (body ++ ']' :: behind) : Text).drop
        ("[with " ++ (body ++ [']']) : Text).length = behind := by
      have parts : ("[with " ++ (body ++ ']' :: behind) : Text) =
          ("[with " ++ (body ++ [']']) : Text) ++ behind := by
        simp only [List.append_assoc, List.cons_append, List.nil_append]
      rw [parts, List.drop_left]
    rw [removeClauses_append silent, removeClauses_of_clause? text positive found, left]

end

/-- A name with the value it is bound to, as the compiler prints them. -/
def printedBinding (item : Text × Text) : Text := item.1 ++ " = " ++ item.2

section

variable {item : Text × Text} {lead : Text}

/-- The blanks that follow a comma do no harm to the item behind it. -/
theorem isArgument_printedBinding (blank : Balanced lead) (comma : ',' ∉ lead)
    (identifier : IsIdentifier item.1) (balanced : Balanced item.2)
    (commas : HasInnerCommas 0 item.2) : IsArgument (lead ++ printedBinding item) := by
  have key : bracketDepth item.1 = 0 := by
    refine bracketDepth_of_balanced (balanced_of_plain (List.all_eq_true.mpr fun c inside => ?_))
    exact decide_eq_true (bracketStep_of_isIdentifierChar (identifier.isIdentifierChar c inside))
  have sign : bracketDepth " = " = 0 := by decide
  have name : ',' ∉ lead ++ (item.1 ++ " = ") := by
    simp only [List.mem_append, not_or]
    exact ⟨comma, identifier.not_mem (by decide), by decide⟩
  have depth : bracketDepth (lead ++ (item.1 ++ " = ")) = 0 := by
    rw [bracketDepth_append, bracketDepth_append, bracketDepth_of_balanced blank, key, sign]
    rfl
  have parts : lead ++ printedBinding item = lead ++ (item.1 ++ " = ") ++ item.2 := by
    rw [printedBinding, List.append_assoc, List.append_assoc, List.append_assoc]
  rw [parts]
  constructor
  · rw [bracketDepth_append, depth, bracketDepth_of_balanced balanced]
    rfl
  · refine (hasInnerCommas_of_not_mem name 0).append ?_
    rw [depth]
    exact commas

theorem binding?_printedBinding (blank : Text.isAllBlank lead = true)
    (identifier : IsIdentifier item.1) :
    binding? (lead ++ printedBinding item) = some (item.1, Text.trim item.2) := by
  have solid : ∀ c ∈ item.1, Text.isBlank c = false := fun c inside =>
    Text.not_isBlank_of_isIdentifierChar (identifier.isIdentifierChar c inside)
  have name : '=' ∉ lead ++ (item.1 ++ " ") := by
    simp only [List.mem_append, not_or]
    refine ⟨fun inside => ?_, identifier.not_mem (by decide), by decide⟩
    have isBlank := List.all_eq_true.mp blank '=' inside
    exact absurd isBlank (by decide)
  have parts : lead ++ printedBinding item =
      lead ++ (item.1 ++ " ") ++ '=' :: (' ' :: item.2) := by
    simp [printedBinding]
  have key : Text.trim (lead ++ (item.1 ++ " ")) = item.1 := by
    have start : Text.trimStart (item.1 ++ " ") = item.1 ++ " " := by
      rw [Text.trimStart_eq_self_iff, List.head?_append_of_ne_nil _ identifier.ne_nil]
      exact fun c first => solid c (List.mem_of_head? first)
    have trimmed : Text.trimEnd item.1 = item.1 :=
      Text.trimEnd_eq_self_iff.mpr fun c last => solid c (List.mem_of_getLast? last)
    rw [Text.trim_append_of_isAllBlank blank, Text.trim, start,
      Text.trimEnd_append_of_trimmed trimmed]
    exact List.append_nil item.1
  have value : Text.trim (' ' :: item.2) = Text.trim item.2 :=
    Text.trim_cons_of_isBlank (by decide) item.2
  have cut : Text.cut? "=" (lead ++ printedBinding item) =
      some (lead ++ (item.1 ++ " "), ' ' :: item.2) := by
    rw [parts]
    exact Text.cut?_append_cons name (' ' :: item.2)
  rw [binding?, cut, Option.map_some, key, value]

end

/-- A clause as the compiler prints it, between texts without a clause. -/
structure PrintedClause where
  front : Text
  items : List (Text × Text)
  behind : Text
  items_ne_nil : items ≠ []
  front_apart : ¬ "[with".toList <:+: front
  behind_apart : ¬ "[with".toList <:+: behind
  identifier : ∀ item ∈ items, IsIdentifier item.1
  balanced : ∀ item ∈ items, Balanced item.2
  /-- By the depth that is counted. In a value of no more than 2 ^ 33 characters that is where no
  comma stands outside of brackets. -/
  commas : ∀ item ∈ items, HasInnerCommas 0 item.2

namespace PrintedClause

variable (clause : PrintedClause)

/-- What is printed between the brackets of the clause. -/
def list : Text := Text.joinWith ", " (clause.items.map printedBinding)

def text : Text := clause.front ++ ("[with " ++ (clause.list ++ ']' :: clause.behind))

/-- The names in the clause, and what they are bound to. -/
def values : List (Text × Text) := clause.items.map fun item => (item.1, Text.trim item.2)

/-- No closing square bracket stands in the clause in front of the one that closes it. -/
def IsPlain : Prop := ∀ item ∈ clause.items, ']' ∉ item.2

instance : DecidablePred IsPlain := fun clause =>
  inferInstanceAs (Decidable (∀ item ∈ clause.items, ']' ∉ item.2))

theorem list_started :
    ∃ c rest, clause.list = c :: rest ∧ Text.isIdentifierChar c = true := by
  obtain ⟨item, others, shape⟩ := List.exists_cons_of_ne_nil clause.items_ne_nil
  have identifier := clause.identifier item (shape ▸ List.mem_cons_self)
  obtain ⟨c, name, key⟩ := List.exists_cons_of_ne_nil identifier.ne_nil
  have solid : printedBinding item ≠ [] := by simp [printedBinding]
  have head : clause.list.head? = some c := by
    rw [list, shape, List.map_cons, Text.head?_joinWith _ solid, printedBinding, key]
    rfl
  obtain ⟨rest, same⟩ := List.head?_eq_some_iff.mp head
  exact ⟨c, rest, same, identifier.isIdentifierChar c (key ▸ List.mem_cons_self)⟩

theorem filterMap_splitArguments_list :
    (splitArguments clause.list).filterMap binding? = clause.values := by
  obtain ⟨item, others, shape⟩ := List.exists_cons_of_ne_nil clause.items_ne_nil
  let spaced : Text × Text → Text := fun other => " ".toList ++ printedBinding other
  have first : item ∈ clause.items := shape ▸ List.mem_cons_self
  have later : ∀ other ∈ others, other ∈ clause.items := fun _ listed =>
    shape ▸ List.mem_cons_of_mem item listed
  have parts : clause.list = Text.joinWith "," (printedBinding item :: others.map spaced) := by
    have moved := Text.joinWith_append_separator "," " " (printedBinding item)
      (others.map printedBinding)
    rw [List.map_map] at moved
    rw [list, shape]
    exact moved
  have arguments : ∀ part ∈ printedBinding item :: others.map spaced, IsArgument part := by
    intro part listed
    rcases List.mem_cons.mp listed with rfl | listed
    · exact isArgument_printedBinding .empty (by decide) (clause.identifier item first)
        (clause.balanced item first) (clause.commas item first)
    · obtain ⟨other, known, rfl⟩ := List.mem_map.mp listed
      have known := later other known
      exact isArgument_printedBinding (balanced_of_plain (by decide)) (by decide)
        (clause.identifier other known) (clause.balanced other known) (clause.commas other known)
  have head : binding? (([] : Text) ++ printedBinding item) = some (item.1, Text.trim item.2) :=
    binding?_printedBinding rfl (clause.identifier item first)
  rw [List.nil_append] at head
  have tail : (others.map spaced).filterMap binding? =
      others.map fun other => (other.1, Text.trim other.2) := by
    rw [List.filterMap_map, ← List.filterMap_eq_map]
    refine List.filterMap_congr fun other known => ?_
    exact binding?_printedBinding rfl (clause.identifier other (later other known))
  rw [parts, splitArguments_join (List.cons_ne_nil _ _) arguments, List.filterMap_cons, head, tail,
    values, shape]
  rfl

/-- Up to the first closing bracket the clause is read, and up to there it is removed. -/
theorem bindings_of_split {body rest : Text}
    (same : clause.list ++ ']' :: clause.behind = body ++ ']' :: rest) (open_ : ']' ∉ body) :
    bindings clause.text = (splitArguments body).filterMap binding? ∧
      removeClauses clause.text = clause.front ++ removeClauses rest := by
  obtain ⟨c, others, shape, isChar⟩ := clause.list_started
  rw [shape, List.cons_append] at same
  cases body with
  | nil =>
      obtain ⟨rfl, -⟩ := List.cons.inj same
      exact absurd isChar (by decide)
  | cons d body =>
      obtain ⟨rfl, -⟩ := List.cons.inj same
      have solid : ∀ e ∈ (c :: body).head?, Text.isBlank e = false := by
        intro e first
        obtain rfl : c = e := by simpa using first
        exact Text.not_isBlank_of_isIdentifierChar isChar
      have read := bindings_of_body clause.front_apart (List.cons_ne_nil c body) solid open_ rest
      rw [← same, ← List.cons_append, ← shape] at read
      exact read

theorem not_mem_list (plain : clause.IsPlain) : ']' ∉ clause.list := by
  intro inside
  rcases Text.mem_joinWith inside with between | ⟨part, listed, within⟩
  · exact absurd between (by decide)
  · obtain ⟨item, known, rfl⟩ := List.mem_map.mp listed
    simp only [printedBinding, List.mem_append] at within
    rcases within with (name | sign) | value
    · exact (clause.identifier item known).not_mem (by decide) name
    · exact absurd sign (by decide)
    · exact plain item known value

/-- What is read from a clause holds no closing square bracket. -/
theorem isPlain_of_bindings (read : bindings clause.text = clause.values) : clause.IsPlain := by
  have closing : ']' ∈ clause.list ++ ']' :: clause.behind :=
    List.mem_append_right _ List.mem_cons_self
  obtain ⟨body, rest, same, open_⟩ := List.eq_append_cons_of_mem closing
  rw [(clause.bindings_of_split same open_).1] at read
  intro item listed inside
  have value : (item.1, Text.trim item.2) ∈ (splitArguments body).filterMap binding? :=
    read ▸ List.mem_map.mpr ⟨item, listed, rfl⟩
  obtain ⟨piece, cut, bound⟩ := List.mem_filterMap.mp value
  obtain ⟨⟨name, written⟩, split, pair⟩ := Option.map_eq_some_iff.mp bound
  have sameValue : Text.trim written = Text.trim item.2 := (Prod.mk.inj pair).2
  have kept : ']' ∈ Text.trim item.2 := Text.mem_trim inside (by decide)
  rw [← sameValue] at kept
  have inPiece : ']' ∈ piece := by
    rw [Text.append_of_cut? split]
    exact List.mem_append_right _ ((Text.trim_infix written).mem kept)
  exact open_ (mem_of_mem_splitArgumentsFrom cut inPiece)

/-- A clause is read and removed up to the first closing square bracket behind it. Hence its names
are read with their values exactly if no value holds such a bracket, and then the whole clause is
removed. -/
theorem bindings_text :
    (∀ body rest, clause.list ++ ']' :: clause.behind = body ++ ']' :: rest → ']' ∉ body →
      bindings clause.text = (splitArguments body).filterMap binding? ∧
        removeClauses clause.text = clause.front ++ removeClauses rest) ∧
    (bindings clause.text = clause.values ↔ clause.IsPlain) ∧
    (clause.IsPlain → removeClauses clause.text = clause.front ++ clause.behind) := by
  have whole (plain : clause.IsPlain) := clause.bindings_of_split rfl (clause.not_mem_list plain)
  refine ⟨fun body rest same open_ => clause.bindings_of_split same open_, ?_, fun plain => ?_⟩
  · refine ⟨clause.isPlain_of_bindings, fun plain => ?_⟩
    rw [(whole plain).1, clause.filterMap_splitArguments_list]
  · rw [(whole plain).2, removeClauses_of_absent clause.behind_apart]

def mapClause : PrintedClause where
  front := "void f(T, U) "
  items := [("T", "map<int, x>"), ("U_2", "char*")]
  behind := " here"
  items_ne_nil := List.cons_ne_nil _ _
  front_apart := by decide +kernel
  behind_apart := by decide +kernel
  identifier := by decide
  balanced := by
    have arguments : Balanced "<int, x>" :=
      .enclosed '<' '>' "int, x" [] (by decide) (balanced_of_plain (by decide)) .empty
    have name : Balanced "map" := balanced_of_plain (by decide)
    have pointer : Balanced "char*" := balanced_of_plain (by decide)
    exact List.forall_mem_cons.mpr
      ⟨name.append arguments, List.forall_mem_singleton.mpr pointer⟩
  commas := by decide

theorem bindings_mapClause :
    (']' ∉ mapClause.list ∧
      removeClauses mapClause.text = mapClause.front ++ removeClauses mapClause.behind) ∧
    mapClause.IsPlain ∧
      bindings mapClause.text =
        [("T".toList, "map<int, x>".toList), ("U_2".toList, "char*".toList)] ∧
      removeClauses mapClause.text = "void f(T, U)  here" := by
  have plain : mapClause.IsPlain := by decide
  have open_ : ']' ∉ mapClause.list := by decide +kernel
  obtain ⟨split, read, removed⟩ := bindings_text mapClause
  have first := split mapClause.list mapClause.behind rfl open_
  exact ⟨⟨open_, first.2⟩, plain, read.mpr plain, removed plain⟩

def arrayClause : PrintedClause where
  front := "void f(T) "
  items := [("T", "int [3]")]
  behind := []
  items_ne_nil := List.cons_ne_nil _ _
  front_apart := by decide +kernel
  behind_apart := by decide
  identifier := by decide
  balanced := by
    have size : Balanced "[3]" :=
      .enclosed '[' ']' "3" [] (by decide) (balanced_of_plain (by decide)) .empty
    have element : Balanced "int " := balanced_of_plain (by decide)
    exact List.forall_mem_singleton.mpr (element.append size)
  commas := by decide

/-- The bracket of the array ends the clause. -/
theorem bindings_arrayClause :
    arrayClause.values = [("T".toList, "int [3]".toList)] ∧
      bindings arrayClause.text = [("T".toList, "int [3".toList)] ∧
      arrayClause.front ++ arrayClause.behind = "void f(T) " ∧
      removeClauses arrayClause.text = "void f(T) ]" := by
  decide +kernel

end PrintedClause

end CompilerFront.Simplify
