import CompilerFront.Proofs.Simplify.ClauseBindings
import CompilerFront.Proofs.Text.Slice

set_option autoImplicit false

namespace CompilerFront.Sliced

open Text Simplify

/-- A difference of numbers; there is none below zero. -/
def minus? (whole part : Nat) : Option Nat := if part ≤ whole then some (whole - part) else none

/-- A clause with the offsets at which it starts and stops. -/
structure ClauseAt where
  start : Nat
  stop : Nat
  body : Text

/-- What comes of one round of the search for a clause: there is no further opening, a clause is
found, or the search goes on at an offset. -/
inductive ClauseSearch where
  | ended
  | found (clause : ClauseAt)
  | resumed (search : Nat)

/-- The body of a clause that was opened right in front of a text, with the offset behind the
bracket that closes it. -/
def body? (after : Text) : Option (Option (Nat × Text)) := do
  let blanks ← minus? (size after) (size (trimStart after))
  let inner ← sliceFrom? after blanks
  match (offsetOf? [']'] inner).filter (0 < ·) with
  | none => return none
  | some close => return some (blanks + close + 1, ← sliceTo? inner close)

/-- Looks at the next opening of a clause from an offset on. -/
def searchClause? (code : Text) (search : Nat) : Option ClauseSearch := do
  let rest ← sliceFrom? code search
  match offsetOf? "[with" rest with
  | none => return .ended
  | some offset =>
    let start := search + offset
    let after ← sliceFrom? code (start + size "[with")
    match ← body? after with
    | none => return .resumed (start + size "[with")
    | some (length, body) => return .found ⟨start, start + size "[with" + length, body⟩

/-- No clause begins in the front of a text. -/
def Clauseless (front text : Text) : Prop :=
  ∀ tail, tail <:+ front → tail ≠ [] → clause? (tail ++ text) = none

/-- Code taken apart at its first clause. -/
structure CutAtClause (code gap clause behind body : Text) : Prop where
  parts : code = gap ++ (clause ++ behind)
  clauseless : Clauseless gap (clause ++ behind)
  solid : clause ≠ []
  read : clause? (clause ++ behind) = some (body, clause.length)

theorem clauseless_cons {c : Char} {front text : Text} :
    Clauseless (c :: front) text ↔
      clause? (c :: (front ++ text)) = none ∧ Clauseless front text := by
  constructor
  · intro clauseless
    refine ⟨clauseless _ (List.suffix_refl _) (List.cons_ne_nil c front), fun tail inside => ?_⟩
    exact clauseless tail (inside.trans (List.suffix_cons c front))
  · rintro ⟨here, later⟩ tail inside solid
    rcases List.suffix_cons_iff.mp inside with rfl | deeper
    · exact here
    · exact later tail deeper solid

theorem Clauseless.append {front middle text : Text} (first : Clauseless front (middle ++ text))
    (second : Clauseless middle text) : Clauseless (front ++ middle) text := by
  induction front with
  | nil => exact second
  | cons c front ih =>
      obtain ⟨here, later⟩ := clauseless_cons.mp first
      rw [List.cons_append, clauseless_cons, List.append_assoc]
      exact ⟨here, ih later⟩

theorem clauseless_of_apart {front text : Text} (apart : Apart "[with" front text) :
    Clauseless front text :=
  fun tail inside solid => clause?_of_absent (apart tail inside solid)

/-- Inside of an opening no other one begins. -/
theorem clauseless_opening {after : Text} (none_read : clause? ("[with" ++ after) = none) :
    Clauseless "[with" after := by
  have inner : Apart "[with" "with" after := by
    apply apart_of_head?
    · decide
    · decide
  exact clauseless_cons.mpr ⟨none_read, clauseless_of_apart inner⟩

theorem body?_cases (after : Text) :
    (body? after = some none ∧ clause? ("[with" ++ after) = none) ∨
      ∃ clause behind body, after = clause ++ behind ∧
        body? after = some (some (size clause, body)) ∧
        clause? ("[with" ++ after) = some (body, ("[with" ++ clause : Text).length) := by
  obtain ⟨blanks, parts, blank⟩ := blanks_append_trimStart after
  have opened : ("[with" : Text).isPrefixOf? ("[with" ++ after) = some after :=
    List.isPrefixOf?_eq_some_iff_append_eq.mpr rfl
  have width : minus? (size after) (size (trimStart after)) = some (size blanks) := by
    have total : size after = size blanks + size (trimStart after) := by
      rw [← size_append, ← parts]
    rw [minus?, if_pos (by omega), total, Nat.add_sub_cancel]
  have inner : sliceFrom? after (size blanks) = some (trimStart after) :=
    sliceFrom?_eq_some_iff.mpr ⟨blanks, parts, rfl⟩
  rw [body?]
  simp only [Option.bind_eq_bind, width, inner, Option.bind_some]
  by_cases closed : ']' ∈ trimStart after
  · obtain ⟨body, behind, shape, open_⟩ := List.eq_append_cons_of_mem closed
    have close : offsetOf? [']'] (trimStart after) = some (size body) := by
      rw [shape]
      exact offsetOf?_of_cut? (cut?_append_cons open_ behind)
    -- A bracket right behind the blanks is no clause in either reading.
    by_cases empty : body = []
    · subst empty
      refine .inl ⟨?_, ?_⟩
      · rw [close]
        rfl
      · rw [List.nil_append] at shape
        simp only [clause?, opened, shape]
        rfl
    · have solid : ∀ c ∈ body.head?, isBlank c = false := by
        intro c first
        apply head?_trimStart after c
        rw [shape, List.head?_append_of_ne_nil _ empty]
        exact first
      have sliced : sliceTo? (trimStart after) (size body) = some body := by
        rw [shape, sliceTo?_append]
      rw [shape] at parts
      refine .inr ⟨blanks ++ (body ++ [']']), behind, body, ?_, ?_, ?_⟩
      · rw [parts, List.append_assoc, List.append_assoc, List.singleton_append]
      · rw [close, Option.filter_some, if_pos (decide_eq_true (size_pos empty))]
        simp only [sliced, Option.bind_some, size_append]
        rfl
      · rw [parts]
        exact clause?_of_closed blank empty solid open_ behind
  · refine .inl ⟨?_, ?_⟩
    · rw [offsetOf?_eq_none_iff.mpr (cut?_of_not_mem closed)]
      rfl
    · simp only [clause?, opened, takeWhile_ne_of_not_mem closed, decide_true, Bool.or_true,
        ↓reduceIte]

theorem searchClause?_of_cut? {rest gap after : Text} (found : cut? "[with" rest = some (gap, after))
    (front : Text) :
    searchClause? (front ++ rest) (size front) = (body? after).bind fun read =>
      match read with
      | none => some (.resumed (size front + size gap + size "[with"))
      | some (length, body) => some (.found
          ⟨size front + size gap, size front + size gap + size "[with" + length, body⟩) := by
  have sliced : sliceFrom? (front ++ rest) (size front + size gap + size "[with") = some after := by
    have taken := sliceFrom?_behind (front ++ gap) "[with" after
    rw [size_append] at taken
    rw [append_of_cut? found, List.append_assoc gap, ← List.append_assoc front]
    exact taken
  rw [searchClause?, sliceFrom?_append, Option.bind_eq_bind, Option.bind_some,
    offsetOf?_of_cut? found]
  simp only [Option.bind_eq_bind, sliced, Option.bind_some]
  rfl

/-- A round of the search fails nowhere, and it passes over no clause. -/
theorem searchClause?_cases (front rest : Text) :
    (searchClause? (front ++ rest) (size front) = some .ended ∧ Clauseless rest []) ∨
    (∃ gap clause behind body, CutAtClause rest gap clause behind body ∧
      searchClause? (front ++ rest) (size front) = some (.found
        ⟨size front + size gap, size front + size gap + size clause, body⟩)) ∨
    ∃ gap behind, rest = gap ++ behind ∧ gap ≠ [] ∧ Clauseless gap behind ∧
      searchClause? (front ++ rest) (size front) = some (.resumed (size front + size gap)) := by
  cases found : cut? "[with" rest with
  | none =>
      have absent : ¬ "[with".toList <:+: rest := by
        rw [← occursIn_iff_infix, occursIn, found]
        decide
      refine .inl ⟨?_, clauseless_of_apart ?_⟩
      · rw [searchClause?, sliceFrom?_append, Option.bind_eq_bind, Option.bind_some,
          offsetOf?_eq_none_iff.mpr found]
        rfl
      · intro tail inside _ start
        rw [List.append_nil] at start
        exact absent (start.isInfix.trans inside.isInfix)
  | some parts =>
      obtain ⟨gap, after⟩ := parts
      have apart := clauseless_of_apart (apart_of_cut? found)
      have shape : rest = gap ++ ("[with" ++ after) := by
        rw [append_of_cut? found, List.append_assoc]
      have round := searchClause?_of_cut? found front
      right
      rcases body?_cases after with
        ⟨nothing, none_read⟩ | ⟨clause, behind, body, rfl, some_read, read⟩
      · right
        refine ⟨gap ++ "[with", after, ?_, ?_, ?_, ?_⟩
        · rw [shape, List.append_assoc]
        · exact List.append_ne_nil_of_right_ne_nil gap (by decide)
        · exact apart.append (clauseless_opening none_read)
        · rw [round, nothing, Option.bind_some, size_append, Nat.add_assoc]
      · left
        have regrouped : "[with" ++ (clause ++ behind) = ("[with" ++ clause) ++ behind :=
          (List.append_assoc "[with".toList clause behind).symm
        rw [regrouped] at apart read shape
        refine ⟨gap, "[with" ++ clause, behind, body, ⟨shape, apart, ?_, read⟩, ?_⟩
        · exact List.append_ne_nil_of_left_ne_nil (by decide) clause
        · rw [round, some_read, Option.bind_some, size_append, ← Nat.add_assoc]

theorem exists_front_of_searchClause? {code : Text} {search : Nat} {round : ClauseSearch}
    (searched : searchClause? code search = some round) :
    ∃ front rest, code = front ++ rest ∧ search = size front := by
  rw [searchClause?, Option.bind_eq_bind, Option.bind_eq_some_iff] at searched
  obtain ⟨rest, sliced, -⟩ := searched
  obtain ⟨front, shape, begun⟩ := sliceFrom?_eq_some_iff.mp sliced
  exact ⟨front, rest, shape, begun⟩

theorem search_lt {code : Text} {search next : Nat}
    (round : searchClause? code search = some (.resumed next)) :
    search < next ∧ next ≤ size code := by
  obtain ⟨front, rest, rfl, rfl⟩ := exists_front_of_searchClause? round
  rcases searchClause?_cases front rest with
    ⟨ended, -⟩ | ⟨_, _, _, _, -, found⟩ | ⟨gap, behind, rfl, solid, -, resumed⟩
  · rw [ended] at round
    cases round
  · rw [found] at round
    cases round
  · rw [resumed] at round
    cases round
    have positive := size_pos solid
    simp only [size_append]
    omega

def clauseFrom (code : Text) (search : Nat) : Option (Option ClauseAt) :=
  match _ : searchClause? code search with
  | none => none
  | some .ended => some none
  | some (.found clause) => some (some clause)
  | some (.resumed next) => clauseFrom code next
termination_by size code - search
decreasing_by
  have advanced := search_lt ‹_›
  omega

theorem clauseFrom_eq (code : Text) (search : Nat) :
    clauseFrom code search = (searchClause? code search).bind fun round =>
      match round with
      | .ended => some none
      | .found clause => some (some clause)
      | .resumed next => clauseFrom code next := by
  rw [clauseFrom]
  split <;> (rename_i round; rw [round]; rfl)

/-- The search ends at the first clause, or at the end of the code if there is none. -/
theorem clauseFrom_cases (front rest : Text) :
    (clauseFrom (front ++ rest) (size front) = some none ∧ Clauseless rest []) ∨
    ∃ gap clause behind body, CutAtClause rest gap clause behind body ∧
      clauseFrom (front ++ rest) (size front) = some (some
        ⟨size front + size gap, size front + size gap + size clause, body⟩) := by
  induction length : rest.length using Nat.strongRecOn generalizing front rest with
  | ind count ih =>
      subst length
      rw [clauseFrom_eq]
      rcases searchClause?_cases front rest with
        ⟨ended, clauseless⟩ | ⟨gap, clause, behind, body, cut, found⟩ |
        ⟨gap, behind, rfl, solid, passed, resumed⟩
      · left
        rw [ended]
        exact ⟨rfl, clauseless⟩
      · right
        rw [found]
        exact ⟨gap, clause, behind, body, cut, rfl⟩
      · have shorter : behind.length < (gap ++ behind).length := by
          have positive := List.length_pos_of_ne_nil solid
          rw [List.length_append]
          omega
        rw [resumed, Option.bind_some, ← List.append_assoc, ← size_append]
        rcases ih behind.length shorter (front ++ gap) behind rfl with
          ⟨ended, clauseless⟩ | ⟨between, clause, tail, body, cut, found⟩
        · left
          rw [← List.append_nil behind] at passed
          exact ⟨ended, passed.append clauseless⟩
        · right
          refine ⟨gap ++ between, clause, tail, body, ⟨?_, ?_, cut.solid, cut.read⟩, ?_⟩
          · rw [cut.parts, List.append_assoc]
          · rw [cut.parts] at passed
            exact passed.append cut.clauseless
          · show clauseFrom (front ++ gap ++ behind) (size (front ++ gap)) = _
            rw [found, size_append, size_append, Nat.add_assoc (size front)]

theorem firstClause?_of_clauseless {code : Text} (clauseless : Clauseless code []) :
    firstClause? code = none := by
  have read := firstClause?_append clauseless
  rwa [List.append_nil] at read

theorem removeClauses_of_clauseless {code : Text} (clauseless : Clauseless code []) :
    Simplify.removeClauses code = code := by
  have kept := removeClauses_append clauseless
  rwa [List.append_nil, show Simplify.removeClauses [] = [] from rfl, List.append_nil] at kept

namespace CutAtClause

variable {code gap clause behind body : Text} (cut : CutAtClause code gap clause behind body)

include cut

theorem firstClause?_eq : firstClause? code = some body := by
  have solid : clause ++ behind ≠ [] := List.append_ne_nil_of_left_ne_nil cut.solid behind
  rw [cut.parts, firstClause?_append cut.clauseless, firstClause?_of_clause? solid cut.read]

theorem removeClauses_eq :
    Simplify.removeClauses code = gap ++ Simplify.removeClauses behind := by
  have solid : clause ++ behind ≠ [] := List.append_ne_nil_of_left_ne_nil cut.solid behind
  have positive : 0 < clause.length := List.length_pos_of_ne_nil cut.solid
  rw [cut.parts, removeClauses_append cut.clauseless,
    removeClauses_of_clause? solid positive cut.read, List.drop_left]

end CutAtClause

theorem lt_stop {code : Text} {search : Nat} {clause : ClauseAt}
    (found : clauseFrom code search = some (some clause)) :
    search < clause.stop ∧ clause.stop ≤ size code := by
  have begun := found
  rw [clauseFrom_eq, Option.bind_eq_some_iff] at begun
  obtain ⟨round, searched, -⟩ := begun
  obtain ⟨front, rest, rfl, rfl⟩ := exists_front_of_searchClause? searched
  rcases clauseFrom_cases front rest with ⟨ended, -⟩ | ⟨gap, _, behind, _, cut, other⟩
  · rw [ended] at found
    cases found
  · rw [other] at found
    cases found
    have positive := size_pos cut.solid
    rw [cut.parts]
    simp only [size_append]
    omega

def removeClausesFrom (code : Text) (start : Nat) : Option Text :=
  match _ : clauseFrom code start with
  | none => none
  | some none => sliceFrom? code start
  | some (some clause) => do
    let kept ← slice? code start clause.start
    return kept ++ (← removeClausesFrom code clause.stop)
termination_by size code - start
decreasing_by
  have advanced := lt_stop ‹_›
  omega

def removeClauses (code : Text) : Option Text := removeClausesFrom code 0

theorem removeClausesFrom_unfold (code : Text) (start : Nat) :
    removeClausesFrom code start = (clauseFrom code start).bind fun found =>
      match found with
      | none => sliceFrom? code start
      | some clause => do
          let kept ← slice? code start clause.start
          return kept ++ (← removeClausesFrom code clause.stop) := by
  rw [removeClausesFrom]
  split <;> (rename_i found; rw [found]; rfl)

theorem removeClausesFrom_eq (front rest : Text) :
    removeClausesFrom (front ++ rest) (size front) = some (Simplify.removeClauses rest) := by
  induction length : rest.length using Nat.strongRecOn generalizing front rest with
  | ind count ih =>
      subst length
      rw [removeClausesFrom_unfold]
      rcases clauseFrom_cases front rest with
        ⟨ended, clauseless⟩ | ⟨gap, clause, behind, body, cut, found⟩
      · rw [ended, Option.bind_some, removeClauses_of_clauseless clauseless]
        exact sliceFrom?_append front rest
      · have shorter : behind.length < rest.length := by
          have positive := List.length_pos_of_ne_nil cut.solid
          rw [cut.parts, List.length_append, List.length_append]
          omega
        have kept := slice?_append front gap (clause ++ behind)
        have later := ih behind.length shorter (front ++ (gap ++ clause)) behind rfl
        rw [List.append_assoc front, List.append_assoc gap, ← cut.parts, size_append, size_append,
          ← Nat.add_assoc] at later
        rw [← cut.parts] at kept
        simp only [found, kept, later, cut.removeClauses_eq, Option.bind_eq_bind,
          Option.bind_some]
        rfl

theorem removeClauses_eq (code : Text) :
    removeClauses code = some (Simplify.removeClauses code) :=
  removeClausesFrom_eq [] code

/-- The pieces between the commas outside of brackets, from the offset `start` on. The last argument
holds the characters from the offset `i` on, which stand at the given depth. -/
def splitArgumentsFrom (text : Text) : (start i : Nat) → Int32 → Text → Option (List Text)
  | start, _, _, [] => do return [← sliceFrom? text start]
  | start, i, depth, c :: rest =>
    if c = ',' ∧ depth = 0 then do
      let part ← slice? text start i
      return part :: (← splitArgumentsFrom text (i + 1) (i + size [c]) depth rest)
    else splitArgumentsFrom text start (i + size [c]) (depth + bracketStep c) rest

def splitArguments (text : Text) : Option (List Text) := splitArgumentsFrom text 0 0 0 text

/-- A piece that is under way takes up the characters in front of the next comma. -/
theorem splitArgumentsFrom_eq (done part rest : Text) {depth : Int32} {first : Text}
    {others : List Text} (split : Simplify.splitArgumentsFrom depth rest = first :: others) :
    splitArgumentsFrom (done ++ (part ++ rest)) (size done) (size done + size part) depth rest =
      some ((part ++ first) :: others) := by
  induction rest generalizing done part depth first others with
  | nil =>
      obtain ⟨rfl, rfl⟩ := List.cons.inj split
      rw [splitArgumentsFrom, sliceFrom?_append]
      rfl
  | cons c rest ih =>
      rw [Simplify.splitArgumentsFrom] at split
      rw [splitArgumentsFrom]
      by_cases comma : c = ',' ∧ depth = 0
      · rw [if_pos comma] at split ⊢
        obtain ⟨rfl, rfl⟩ := List.cons.inj split
        obtain ⟨next, later, behind⟩ :=
          List.exists_cons_of_ne_nil (splitArgumentsFrom_ne_nil depth rest)
        have followed := ih (done ++ (part ++ [c])) [] behind
        have one : size [c] = 1 := by
          rw [comma.1]
          rfl
        simp only [size_append, size_nil, List.append_assoc, List.singleton_append,
          List.nil_append, ← Nat.add_assoc, Nat.add_zero, one] at followed
        simp only [slice?_append, one, followed, behind, Option.bind_eq_bind, Option.bind_some]
        rw [List.append_nil]
        rfl
      · rw [if_neg comma] at split ⊢
        obtain ⟨next, later, behind⟩ := List.exists_cons_of_ne_nil
          (splitArgumentsFrom_ne_nil (depth + bracketStep c) rest)
        rw [behind] at split
        obtain ⟨rfl, rfl⟩ := List.cons.inj split
        have followed := ih done (part ++ [c]) behind
        simp only [size_append, List.append_assoc, List.singleton_append, ← Nat.add_assoc]
          at followed
        exact followed

theorem splitArguments_eq (text : Text) :
    splitArguments text = some (Simplify.splitArguments text) := by
  obtain ⟨first, others, split⟩ := List.exists_cons_of_ne_nil (splitArgumentsFrom_ne_nil 0 text)
  rw [Simplify.splitArguments, split]
  exact splitArgumentsFrom_eq [] [] text split

def bindings (code : Text) : Option (List (Text × Text)) := do
  match ← clauseFrom code 0 with
  | none => return []
  | some clause => return (← splitArguments clause.body).filterMap binding?

theorem bindings_eq (code : Text) : bindings code = some (Simplify.bindings code) := by
  rw [bindings, Simplify.bindings]
  rcases clauseFrom_cases [] code with ⟨ended, clauseless⟩ | ⟨gap, clause, behind, body, cut, found⟩
  · rw [List.nil_append, size_nil] at ended
    rw [ended, firstClause?_of_clauseless clauseless]
    rfl
  · rw [List.nil_append, size_nil] at found
    rw [found, cut.firstClause?_eq, Option.bind_eq_bind, Option.bind_some]
    simp only [splitArguments_eq]
    rfl

end CompilerFront.Sliced
