import CompilerFront.Simplify.Line
import CompilerFront.Proofs.Diagnostic.Printed
import CompilerFront.Proofs.Text.Occurrence

set_option autoImplicit false

namespace CompilerFront.Simplify

/-- What the simplifier looks for in code. Whatever it changes is found behind one of these. -/
def landmarks : List Text :=
  (["[with", spacedBrackets, "std::", "__gnu_cxx::", "boost::"] : List Text) ++
    charTypedefs.map Prod.fst ++ containers.map Container.name

/-- Passes that each leave a text alone leave it alone one after the other. -/
theorem foldl_unchanged {Pass : Type} {run : Text → Pass → Text} {passes : List Pass} {text : Text}
    (unchanged : ∀ pass ∈ passes, run text pass = text) : passes.foldl run text = text := by
  induction passes with
  | nil => rfl
  | cons pass others ih =>
      obtain ⟨first, behind⟩ := List.forall_mem_cons.mp unchanged
      rw [List.foldl_cons, first]
      exact ih behind

section

variable {code : Text}

theorem clause?_of_absent {text : Text} (absent : ¬ "[with".toList <+: text) :
    clause? text = none := by
  have none_found : ("[with" : Text).isPrefixOf? text = none := by
    rw [Option.eq_none_iff_forall_not_mem]
    intro after shown
    exact absent ⟨after, List.isPrefixOf?_eq_some_iff_append_eq.mp shown⟩
  simp only [clause?, none_found]

theorem firstClause?_of_absent (absent : ¬ "[with".toList <:+: code) :
    firstClause? code = none := by
  induction code with
  | nil => rfl
  | cons c rest ih =>
      rw [List.infix_cons_iff, not_or] at absent
      rw [firstClause?, clause?_of_absent absent.1]
      exact ih absent.2

theorem removeClauses_of_absent (absent : ¬ "[with".toList <:+: code) :
    removeClauses code = code := by
  refine Text.editFrom_of_silent (fun _ suffix inside => ?_) none
  have apart : ¬ "[with".toList <+: suffix :=
    fun start => absent (start.isInfix.trans inside.isInfix)
  rw [clause?_of_absent apart]
  rfl

/-- Without a clause nothing is bound, and only blanks at the ends are removed. -/
theorem carryOutBindings_of_absent (absent : ¬ "[with".toList <:+: code) :
    carryOutBindings code = Text.trim code := by
  rw [carryOutBindings, bindings, firstClause?_of_absent absent, substitute_nil,
    removeClauses_of_absent absent]

theorem foldCharTypedefs_of_absent (absent : ∀ names ∈ charTypedefs, ¬ names.1 <:+: code) :
    foldCharTypedefs code = code :=
  foldl_unchanged fun names inside => Text.replaceAll_of_not_infix names.2 (absent names inside)

/-- How the traits of a character template end where their argument begins. -/
def traitsEnd : Text := "s<"

theorem traitsEnd_occurs : ∀ names ∈ charTypedefs, traitsEnd <:+: names.1 := by
  decide +kernel

theorem foldCharTypedefs_of_traitsEnd (absent : ¬ traitsEnd <:+: code) :
    foldCharTypedefs code = code :=
  foldCharTypedefs_of_absent fun names listed inside =>
    absent ((traitsEnd_occurs names listed).trans inside)

theorem dropDefaultArguments_of_absent
    (absent : ∀ container ∈ containers, ¬ container.name <:+: code) :
    dropDefaultArguments code = code := by
  refine foldl_unchanged fun container inside => Container.dropDefaults_of_not_occursIn ?_
  rw [← Bool.not_eq_true, Text.occursIn_iff_infix]
  exact absent container inside

/-- Code without landmarks stays as it is. -/
theorem simplifyFragment_of_absent (trimmed : Text.trim code = code)
    (absent : ∀ landmark ∈ landmarks, ¬ landmark <:+: code) (level : Nat) :
    simplifyFragment level code = code := by
  have typedefs : ∀ names ∈ charTypedefs, ¬ names.1 <:+: code := by
    intro names inside
    apply absent
    simp only [landmarks, List.mem_append, List.mem_map]
    exact .inl (.inr ⟨names, inside, rfl⟩)
  have named : ∀ container ∈ containers, ¬ container.name <:+: code := by
    intro container inside
    apply absent
    simp only [landmarks, List.mem_append, List.mem_map]
    exact .inr ⟨container, inside, rfl⟩
  have bound : carryOutBindings code = code := by
    rw [carryOutBindings_of_absent (absent _ (by simp [landmarks])), trimmed]
  have closed : closeUp code = code := by
    apply closeUp_of_not_occursIn
    rw [← Bool.not_eq_true, Text.occursIn_iff_infix]
    exact absent _ (by simp [landmarks])
  have removed {qualifier : Text} (apart : ¬ qualifier <:+: code) :
      Text.removeAll qualifier code = code := Text.replaceAll_of_not_infix [] apart
  have standard : shortenStandardNames code = code := by
    rw [shortenStandardNames, closed, removed (absent _ (by simp [landmarks])),
      removed (absent _ (by simp [landmarks])), foldCharTypedefs_of_absent typedefs,
      dropDefaultArguments_of_absent named]
  have boost : ¬ "boost::".toList <:+: code := absent _ (by simp [landmarks])
  have detail : ¬ "boost::detail::".toList <:+: code :=
    fun inside => boost (List.IsInfix.trans (by decide) inside)
  have unqualified : removeBoostQualifiers code = code := by
    rw [removeBoostQualifiers, removed detail, removed boost]
  simp only [simplifyFragment, bound, standard, unqualified, ite_self]

end

def IsPosition (text : Text) : Prop := ∀ c ∈ text, Text.isDigit c = true ∨ c = ':'

instance : DecidablePred IsPosition :=
  List.decidableBAll fun c => Text.isDigit c = true ∨ c = ':'

/-- Every landmark holds a character that is neither a digit nor a colon. -/
theorem not_isPosition_of_mem_landmarks : ∀ landmark ∈ landmarks, ¬ IsPosition landmark := by
  decide +kernel

theorem simplifyFragment_of_isPosition {code : Text} (isPosition : IsPosition code) (level : Nat) :
    simplifyFragment level code = code := by
  apply simplifyFragment_of_absent
  · apply Text.trim_of_solid
    intro c inside
    rcases isPosition c inside with digit | rfl
    · exact Diagnostic.not_isBlank_of_isDigit digit
    · decide
  · intro landmark listed inside
    exact not_isPosition_of_mem_landmarks landmark listed fun c here =>
      isPosition c (inside.mem here)

theorem isPosition_plainFragment {segments : List Text}
    (digits : ∀ segment ∈ segments, ∀ c ∈ segment, Text.isDigit c = true) :
    IsPosition (Diagnostic.plainFragment segments) := by
  intro c inside
  rw [Diagnostic.plainFragment_eq] at inside
  rcases Text.mem_joinWith inside with joint | ⟨segment, named, within⟩
  · exact .inr (List.mem_singleton.mp joint)
  · exact .inl (digits segment ((Diagnostic.named_suffix segments).mem named) c within)

theorem foldl_simplifyWithin_of_unchanged {level : Nat} {fragments : List Text}
    (unchanged : ∀ fragment ∈ fragments, simplifyFragment level fragment = fragment)
    (line : Text) : fragments.foldl (simplifyWithin level) line = line := by
  refine foldl_unchanged fun fragment inside => ?_
  rw [simplifyWithin, unchanged fragment inside, Text.replaceAll_self_right]

end CompilerFront.Simplify
