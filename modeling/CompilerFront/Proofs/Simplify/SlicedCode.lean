import CompilerFront.Proofs.Simplify.SlicedClauses
import CompilerFront.Simplify.Fragment

set_option autoImplicit false

namespace CompilerFront.Sliced

open Text Simplify

/-- The offsets at which a pattern stands in a text that begins at an offset, from the left and
without overlaps. The first `skip` characters belong to the last occurrence. -/
def matchesFrom (pattern : Text) : (offset skip : Nat) → Text → List Nat
  | _, _, [] => []
  | offset, skip + 1, c :: rest => matchesFrom pattern (offset + size [c]) skip rest
  | offset, 0, c :: rest =>
    if pattern.isPrefixOf (c :: rest) then
      offset :: matchesFrom pattern (offset + size [c]) (pattern.length - 1) rest
    else matchesFrom pattern (offset + size [c]) 0 rest

/-- The text from the offset `last` on with a value for the name at those of the offsets where the
name stands alone. -/
def replaceFrom (key value text : Text) : (last : Nat) → List Nat → Option Text
  | last, [] => sliceFrom? text last
  | last, i :: offsets =>
    if i < last then replaceFrom key value text last offsets
    else do
      let before ← sliceTo? text i
      let after ← sliceFrom? text (i + size key)
      if endsIdentifier before.getLast? && endsIdentifier after.head? then
        let kept ← slice? text last i
        return kept ++ value ++ (← replaceFrom key value text (i + size key) offsets)
      else replaceFrom key value text last offsets

def replaceIdentifier (key value text : Text) : Option Text :=
  if key.isEmpty then some text else replaceFrom key value text 0 (matchesFrom key 0 0 text)

def substitute (bindings : List (Text × Text)) (text : Text) : Option Text :=
  bindings.foldlM (fun text binding => replaceIdentifier binding.1 binding.2 text) text

/-- The first argument of a text. The last argument holds the characters from the offset `i` on,
which stand at the given depth. -/
def argumentFrom? (text : Text) : (i : Nat) → Int32 → Text → Option (Option Text)
  | _, _, [] => some none
  | i, depth, c :: rest =>
    if (c = ',' ∨ c = '=') ∧ depth = 0 then
      (sliceTo? text i).map fun argument => some (trim argument)
    else
      let inner := depth + bracketStep c
      if inner < 0 then some none else argumentFrom? text (i + size [c]) inner rest

/-- The element type at the first occurrence of a container. Here a slice may be missing: there is
no element type then. -/
def element? (container : Container) (code : Text) : Option (Option Text) :=
  match offsetOf? container.name code with
  | none => some none
  | some place =>
    match sliceFrom? code (place + size container.name + 1) with
    | none => some none
    | some arguments => argumentFrom? arguments 0 0 arguments

def dropDefaults (container : Container) (code : Text) : Option Text := do
  match ← element? container code with
  | none => return code
  | some element =>
    return replaceAll (container.valueType element) element
      (replaceAll (container.fullName element) (container.shortName element) code)

/-- A fragment as it is simplified at level 1. All that is done to it apart from the steps above
goes through the text as a whole. -/
def shorten (code : Text) : Option Text := do
  let found ← bindings code
  let bare ← removeClauses code
  let bound ← substitute found (trim bare)
  let short := foldCharTypedefs (removeAll "__gnu_cxx::" (removeAll "std::" (closeUp bound)))
  containers.foldlM (fun code container => dropDefaults container code) short

def simplifyFragment (level : Nat) (code : Text) : Option Text := do
  let shortened ← if codeLevel ≤ level then shorten code else some code
  return if libraryLevel ≤ level then removeBoostQualifiers shortened else shortened

theorem matchesFrom_skip (pattern front rest : Text) (offset : Nat) :
    matchesFrom pattern offset front.length (front ++ rest) =
      matchesFrom pattern (offset + size front) 0 rest := by
  induction front generalizing offset with
  | nil => rfl
  | cons c front ih =>
      rw [List.length_cons, List.cons_append, matchesFrom, ih, Nat.add_assoc, ← size_cons]

theorem editFrom_skip_append (rule : Rule) (c : Char) (front rest : Text) :
    editFrom rule front.length (some c) (front ++ rest) =
      editFrom rule 0 (c :: front).getLast? rest := by
  induction front generalizing c with
  | nil => rfl
  | cons d front ih =>
      rw [List.length_cons, List.cons_append, editFrom_skip, ih, List.getLast?_cons_cons]

section

variable {key : Text} (solid : key ≠ [])

include solid

theorem matchesFrom_append (offset : Nat) (behind : Text) :
    matchesFrom key offset 0 (key ++ behind) =
      offset :: matchesFrom key (offset + size key) 0 behind := by
  obtain ⟨c, tail, rfl⟩ := List.exists_cons_of_ne_nil solid
  have start : (c :: tail).isPrefixOf (c :: (tail ++ behind)) = true :=
    List.isPrefixOf_iff_prefix.mpr (List.prefix_append (c :: tail) behind)
  rw [List.cons_append, matchesFrom, if_pos start, List.length_cons, Nat.add_sub_cancel,
    matchesFrom_skip, Nat.add_assoc, ← size_cons]

/-- An occurrence of the name is replaced if it stands alone, and copied otherwise. -/
theorem editFrom_identifierRule_occurrence (value : Text) (before : Option Char) (behind : Text) :
    editFrom (identifierRule key value) 0 before (key ++ behind) =
      (if endsIdentifier before && endsIdentifier behind.head? then value else key) ++
        editFrom (identifierRule key value) 0 key.getLast? behind := by
  have start : key.isPrefixOf (key ++ behind) = true :=
    List.isPrefixOf_iff_prefix.mpr (List.prefix_append key behind)
  have fired : identifierRule key value before (key ++ behind) =
      some (if endsIdentifier before && endsIdentifier behind.head? then value else key,
        key.length) := by
    rw [identifierRule, if_pos start, List.drop_left]
    split
    · rfl
    · rfl
  obtain ⟨c, tail, rfl⟩ := List.exists_cons_of_ne_nil solid
  rw [List.cons_append] at fired ⊢
  rw [editFrom_fire fired, List.length_cons, Nat.add_sub_cancel, editFrom_skip_append]

/-- Up to the next occurrence of the name nothing is written, and an occurrence that does not stand
alone is kept with the text around it. -/
theorem replaceFrom_eq (value done pending rest : Text) :
    replaceFrom key value (done ++ (pending ++ rest)) (size done)
        (matchesFrom key (size done + size pending) 0 rest) =
      some (pending ++
        editFrom (identifierRule key value) 0 (done ++ pending).getLast? rest) := by
  -- The search goes on behind a whole occurrence, so the induction is on what is left to read.
  induction length : rest.length using Nat.strongRecOn generalizing done pending rest with
  | ind count ih =>
      subst length
      by_cases start : key <+: rest
      · obtain ⟨behind, rfl⟩ := start
        have shorter : behind.length < (key ++ behind).length := by
          have positive := List.length_pos_of_ne_nil solid
          rw [List.length_append]
          omega
        have inOrder : ¬ size done + size pending < size done := by omega
        have before := sliceTo?_append (done ++ pending) (key ++ behind)
        have after := sliceFrom?_behind (done ++ pending) key behind
        rw [List.append_assoc, size_append] at before after
        have last : (done ++ (pending ++ key)).getLast? = key.getLast? := by
          rw [← List.append_assoc, List.getLast?_append_of_ne_nil _ solid]
        rw [matchesFrom_append solid, replaceFrom, if_neg inOrder,
          editFrom_identifierRule_occurrence solid]
        simp only [before, after, Option.bind_eq_bind, Option.bind_some]
        by_cases alone :
            (endsIdentifier (done ++ pending).getLast? && endsIdentifier behind.head?) = true
        · have later := ih behind.length shorter (done ++ (pending ++ key)) [] behind rfl
          simp only [size_append, size_nil, List.append_assoc, List.nil_append, ← Nat.add_assoc,
            Nat.add_zero, List.append_nil, last] at later
          rw [if_pos alone, if_pos alone, slice?_append, later, ← List.append_assoc pending]
          rfl
        · have later := ih behind.length shorter done (pending ++ key) behind rfl
          simp only [size_append, List.append_assoc, ← Nat.add_assoc, last] at later
          rw [if_neg alone, if_neg alone, later]
      · cases rest with
        | nil => rw [matchesFrom, replaceFrom, sliceFrom?_append, editFrom_nil]
        | cons c rest =>
            have absent : ¬ key.isPrefixOf (c :: rest) = true := fun shown =>
              start (List.isPrefixOf_iff_prefix.mp shown)
            have copied : identifierRule key value (done ++ pending).getLast? (c :: rest) = none :=
              if_neg absent
            have last : (done ++ (pending ++ [c])).getLast? = some c := by
              rw [← List.append_assoc, List.getLast?_concat]
            have later := ih rest.length (Nat.lt_succ_self _) done (pending ++ [c]) rest rfl
            simp only [size_append, List.append_assoc, List.singleton_append, ← Nat.add_assoc,
              last] at later
            rw [matchesFrom, if_neg absent, editFrom_copy copied, later]

end

theorem replaceIdentifier_eq (key value text : Text) :
    replaceIdentifier key value text = some (Simplify.replaceIdentifier key value text) := by
  rw [replaceIdentifier, Simplify.replaceIdentifier]
  split
  · rfl
  · rename_i solid
    rw [List.isEmpty_iff] at solid
    exact replaceFrom_eq solid value [] [] text

theorem substitute_eq (bindings : List (Text × Text)) (text : Text) :
    substitute bindings text = some (Simplify.substitute bindings text) := by
  simp only [substitute, replaceIdentifier_eq]
  exact List.foldlM_pure

theorem argumentFrom?_eq (read rest : Text) (depth : Int32) :
    argumentFrom? (read ++ rest) (size read) depth rest =
      some ((Simplify.argumentFrom? depth rest).map fun more => trim (read ++ more)) := by
  induction rest generalizing read depth with
  | nil => rfl
  | cons c rest ih =>
      rw [argumentFrom?, Simplify.argumentFrom?]
      split
      · rw [sliceTo?_append, Option.map_some, Option.map_some, List.append_nil]
      · simp only
        split
        · rfl
        · have later := ih (read ++ [c]) (depth + bracketStep c)
          rw [List.append_assoc, List.singleton_append, size_append] at later
          rw [later, Option.map_map]
          simp only [Function.comp_def, List.append_assoc, List.singleton_append]

theorem element?_eq (container : Container) (code : Text) :
    element? container code = some (container.element? code) := by
  rw [element?, Container.element?]
  cases found : cut? container.name code with
  | none => rw [offsetOf?_eq_none_iff.mpr found]
  | some parts =>
      obtain ⟨front, behind⟩ := parts
      rw [offsetOf?_of_cut? found]
      simp only
      rw [append_of_cut? found, ← size_append, sliceFrom?_succ]
      cases behind with
      | nil => rfl
      | cons bracket arguments =>
          by_cases ascii : bracket.toNat < 0x80
          · have read := argumentFrom?_eq [] arguments 0
            simp only [if_pos ascii]
            exact read
          · simp only [if_neg ascii]

theorem dropDefaults_eq (container : Container) (code : Text) :
    dropDefaults container code = some (container.dropDefaults code) := by
  rw [dropDefaults, element?_eq, Container.dropDefaults, Option.bind_eq_bind, Option.bind_some]
  cases container.element? code with
  | none => rfl
  | some element => rfl

theorem shorten_eq (code : Text) :
    shorten code = some (shortenStandardNames (carryOutBindings code)) := by
  simp only [shorten, bindings_eq, removeClauses_eq, substitute_eq, dropDefaults_eq,
    Option.bind_eq_bind, Option.bind_some]
  exact List.foldlM_pure

/-- A fragment is simplified without any slice that fails, but for the one that may be missing. -/
theorem simplifyFragment_eq (level : Nat) (code : Text) :
    simplifyFragment level code = some (Simplify.simplifyFragment level code) := by
  rw [simplifyFragment, Simplify.simplifyFragment]
  split
  · rw [shorten_eq]
    rfl
  · rfl

end CompilerFront.Sliced
