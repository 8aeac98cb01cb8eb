import CompilerFront.Proofs.Text.Occurrence
import CompilerFront.Simplify.Fragment
import Mathlib.Data.List.SplitBy
import Mathlib.Data.List.TakeWhile

set_option autoImplicit false

namespace CompilerFront.Simplify

def areJoined (left right : Char) : Bool :=
  Text.isIdentifierChar left && Text.isIdentifierChar right

/-- The longest runs of identifier characters, and every other character on its own. -/
def tokens (text : Text) : List Text := text.splitBy areJoined

/-- A text with something written for each of its tokens. -/
def rewriteTokens (write : Text → Text) (text : Text) : Text := (tokens text).flatMap write

/-- A text of identifier characters, and of at least one. -/
structure IsIdentifier (text : Text) : Prop where
  ne_nil : text ≠ []
  isIdentifierChar : ∀ c ∈ text, Text.isIdentifierChar c = true

theorem isIdentifier_iff {text : Text} :
    IsIdentifier text ↔ text ≠ [] ∧ text.all Text.isIdentifierChar = true := by
  rw [List.all_eq_true]
  exact ⟨fun word => ⟨word.ne_nil, word.isIdentifierChar⟩, fun parts => ⟨parts.1, parts.2⟩⟩

instance : DecidablePred IsIdentifier := fun _ => decidable_of_iff' _ isIdentifier_iff

theorem IsIdentifier.not_mem {key : Text} (identifier : IsIdentifier key) {c : Char}
    (other : Text.isIdentifierChar c = false) : c ∉ key := by
  intro inside
  rw [identifier.isIdentifierChar c inside] at other
  cases other

/-- A text that does not go on with an identifier. -/
def IsEnd (rest : Text) : Prop := ∀ c ∈ rest.head?, Text.isIdentifierChar c = false

section

variable {word rest : Text}

theorem tokens_append {first second : Text}
    (apart : ∀ left ∈ first.getLast?, ∀ right ∈ second.head?, areJoined left right = false) :
    tokens (first ++ second) = tokens first ++ tokens second :=
  List.splitBy_append apart

theorem tokens_cons {c : Char} (other : Text.isIdentifierChar c = false) (rest : Text) :
    tokens (c :: rest) = [c] :: tokens rest := by
  have apart : ∀ left ∈ [c].getLast?, ∀ right ∈ rest.head?, areJoined left right = false := by
    intro left last right _
    obtain rfl : c = left := by simpa using last
    simp [areJoined, other]
  exact tokens_append apart

theorem tokens_of_mem {token text : Text} (inside : token ∈ tokens text) :
    tokens token = [token] :=
  List.splitBy_of_isChain (List.ne_nil_of_mem_splitBy inside) (List.isChain_of_mem_splitBy inside)

theorem tokens_of_isIdentifier (identifier : IsIdentifier word) : tokens word = [word] := by
  refine List.splitBy_of_isChain identifier.ne_nil (List.Pairwise.isChain ?_)
  refine List.pairwise_of_forall_mem_list fun left before right behind => ?_
  simp [areJoined, identifier.isIdentifierChar left before,
    identifier.isIdentifierChar right behind]

theorem tokens_word_append (identifier : IsIdentifier word) (ended : IsEnd rest) :
    tokens (word ++ rest) = word :: tokens rest := by
  have apart : ∀ left ∈ word.getLast?, ∀ right ∈ rest.head?, areJoined left right = false := by
    intro left _ right head
    simp [areJoined, ended right head]
  rw [tokens_append apart, tokens_of_isIdentifier identifier, List.singleton_append]

/-- Texts are built from their tokens. -/
theorem tokenInduction {motive : Text → Prop} (empty : motive [])
    (other : ∀ c rest, Text.isIdentifierChar c = false → motive rest → motive (c :: rest))
    (identifier : ∀ word rest, IsIdentifier word → IsEnd rest → motive rest →
      motive (word ++ rest)) (text : Text) : motive text := by
  induction size : text.length using Nat.strongRecOn generalizing text with
  | ind length ih =>
    subst size
    cases text with
    | nil => exact empty
    | cons c rest =>
      cases class_ : Text.isIdentifierChar c with
      | false => exact other c rest class_ (ih _ (Nat.lt_succ_self _) rest rfl)
      | true =>
        have split := List.takeWhile_append_dropWhile (p := Text.isIdentifierChar) (l := rest)
        have word : IsIdentifier (c :: rest.takeWhile Text.isIdentifierChar) := by
          refine ⟨List.cons_ne_nil _ _, fun d inside => ?_⟩
          rcases List.mem_cons.mp inside with rfl | later
          · exact class_
          · exact List.mem_takeWhile_imp later
        have ended : IsEnd (rest.dropWhile Text.isIdentifierChar) := by
          intro d head
          have first := List.head?_dropWhile_not Text.isIdentifierChar rest
          rwa [Option.mem_def.mp head] at first
        rw [← split, ← List.cons_append]
        refine identifier _ _ word ended (ih _ ?_ _ rfl)
        exact Nat.lt_succ_of_le (List.dropWhile_sublist _).length_le

theorem rewriteTokens_cons (write : Text → Text) {c : Char}
    (other : Text.isIdentifierChar c = false) (rest : Text) :
    rewriteTokens write (c :: rest) = write [c] ++ rewriteTokens write rest := by
  rw [rewriteTokens, tokens_cons other, List.flatMap_cons, rewriteTokens]

theorem rewriteTokens_word_append (write : Text → Text) (identifier : IsIdentifier word)
    (ended : IsEnd rest) :
    rewriteTokens write (word ++ rest) = write word ++ rewriteTokens write rest := by
  rw [rewriteTokens, tokens_word_append identifier ended, List.flatMap_cons, rewriteTokens]

theorem rewriteTokens_congr {first second : Text → Text} {text : Text}
    (same : ∀ token ∈ tokens text, first token = second token) :
    rewriteTokens first text = rewriteTokens second text :=
  List.flatMap_congr same

theorem rewriteTokens_of_unchanged {write : Text → Text} {text : Text}
    (unchanged : ∀ token ∈ tokens text, write token = token) : rewriteTokens write text = text := by
  have kept : rewriteTokens write text = rewriteTokens id text := rewriteTokens_congr unchanged
  rw [kept, rewriteTokens, List.flatMap_id, tokens, List.flatten_splitBy]

theorem rewriteTokens_of_mem (write : Text → Text) {token text : Text}
    (inside : token ∈ tokens text) : rewriteTokens write token = write token := by
  rw [rewriteTokens, tokens_of_mem inside, List.flatMap_singleton]

/-- What follows an identifier still follows it after the other characters were copied. -/
theorem isEnd_rewriteTokens {write : Text → Text}
    (copied : ∀ c, Text.isIdentifierChar c = false → write [c] = [c]) (ended : IsEnd rest) :
    IsEnd (rewriteTokens write rest) := by
  cases rest with
  | nil => exact ended
  | cons c rest =>
      have other : Text.isIdentifierChar c = false := ended c rfl
      rw [rewriteTokens_cons write other, copied c other]
      exact ended

/-- Rewriting twice: no token reaches over the ends of what was written for an identifier, since
its neighbours are copied. -/
theorem rewriteTokens_rewriteTokens {first : Text → Text} (second : Text → Text)
    (copied : ∀ c, Text.isIdentifierChar c = false → first [c] = [c]) (text : Text) :
    rewriteTokens second (rewriteTokens first text) =
      rewriteTokens (fun token => rewriteTokens second (first token)) text := by
  induction text using tokenInduction with
  | empty => rfl
  | other c rest other ih =>
      have alone : rewriteTokens second [c] = second [c] := by
        rw [rewriteTokens_cons second other]
        exact List.append_nil _
      rw [rewriteTokens_cons first other, copied c other, List.singleton_append,
        rewriteTokens_cons second other, rewriteTokens_cons _ other, copied c other, alone, ih]
  | identifier word rest identifier ended ih =>
      have apart : ∀ left ∈ (first word).getLast?,
          ∀ right ∈ (rewriteTokens first rest).head?, areJoined left right = false := by
        intro left _ right head
        simp [areJoined, isEnd_rewriteTokens copied ended right head]
      rw [rewriteTokens_word_append first identifier ended, rewriteTokens, tokens_append apart,
        List.flatMap_append, rewriteTokens_word_append _ identifier ended, ← ih]
      rfl

end

section

variable {key word rest : Text}

theorem prefix_of_prefix_append (identifier : IsIdentifier key) (ended : IsEnd rest)
    (start : key <+: word ++ rest) : key <+: word := by
  cases rest with
  | nil => simpa using start
  | cons c rest =>
      have absent : c ∉ key := identifier.not_mem (ended c rfl)
      exact (Text.prefix_append_cons_iff absent).mp start

/-- An occurrence of the key is copied if it is not the whole of an identifier. -/
theorem identifierRule_of_kept {tail : Text} (value : Text) {before : Option Char}
    (chars : ∀ c ∈ tail, Text.isIdentifierChar c = true)
    (kept : endsIdentifier before = false ∨ tail ≠ []) :
    identifierRule key value before (key ++ tail ++ rest) = some (key, key.length) := by
  have start : key.isPrefixOf (key ++ tail ++ rest) = true := by
    rw [List.isPrefixOf_iff_prefix, List.append_assoc]
    exact List.prefix_append _ _
  have stays : (endsIdentifier before &&
      endsIdentifier ((key ++ tail ++ rest).drop key.length).head?) = false := by
    rw [Bool.and_eq_false_iff]
    refine kept.imp_right fun more => ?_
    obtain ⟨c, others, rfl⟩ := List.exists_cons_of_ne_nil more
    have goesOn : Text.isIdentifierChar c = true := chars c List.mem_cons_self
    rw [List.append_assoc, List.drop_left]
    simp [endsIdentifier, goesOn]
  rw [identifierRule, if_pos start, stays]
  rfl

/-- Inside of an identifier nothing is replaced, unless the identifier begins here and is the
key. -/
theorem editFrom_identifierRule_append (identifier : IsIdentifier key) (value : Text)
    (chars : ∀ c ∈ word, Text.isIdentifierChar c = true) (ended : IsEnd rest) {written : Text}
    (followed : ∀ before, Text.editFrom (identifierRule key value) 0 before rest = written)
    {skip : Nat} (inside : skip ≤ word.length) {before : Option Char}
    (kept : endsIdentifier before = false ∨ word ≠ key) :
    Text.editFrom (identifierRule key value) skip before (word ++ rest) =
      word.drop skip ++ written := by
  induction word generalizing skip before with
  | nil =>
      obtain rfl := Nat.le_zero.mp inside
      exact followed before
  | cons c word ih =>
      obtain ⟨isChar, others⟩ := List.forall_mem_cons.mp chars
      have within : endsIdentifier (some c) = false := by simp [endsIdentifier, isChar]
      cases skip with
      | succ skip =>
          rw [List.cons_append, Text.editFrom_skip, List.drop_succ_cons]
          exact ih others (Nat.le_of_succ_le_succ inside) (.inl within)
      | zero =>
          -- A word that only begins with the key is still matched, but the match writes the key itself
          -- back and skips over it.
          by_cases start : key <+: c :: word
          · obtain ⟨tail, same⟩ := start
            have rest_chars : ∀ d ∈ tail, Text.isIdentifierChar d = true :=
              fun d behind => chars d (same ▸ List.mem_append_right key behind)
            have longer : endsIdentifier before = false ∨ tail ≠ [] := by
              refine kept.imp_right fun other ended => other ?_
              rw [← same, ended, List.append_nil]
            have fired : identifierRule key value before (c :: (word ++ rest)) =
                some (key, key.length) := by
              rw [← List.cons_append, ← same]
              exact identifierRule_of_kept value rest_chars longer
            obtain ⟨d, key, rfl⟩ := List.exists_cons_of_ne_nil identifier.ne_nil
            obtain ⟨rfl, rfl⟩ := List.cons.inj same
            rw [List.cons_append, Text.editFrom_fire fired, ih others (by simp) (.inl within)]
            simp
          · have silent : identifierRule key value before (c :: (word ++ rest)) = none := by
              have apart : ¬ key <+: c :: word ++ rest :=
                fun whole => start (prefix_of_prefix_append identifier ended whole)
              rw [← List.isPrefixOf_iff_prefix] at apart
              exact if_neg apart
            rw [List.cons_append, Text.editFrom_copy silent,
              ih others (Nat.zero_le _) (.inl within)]
            rfl

theorem editFrom_identifierRule_key (identifier : IsIdentifier key) (value : Text)
    (ended : IsEnd rest) {written : Text}
    (followed : ∀ before, Text.editFrom (identifierRule key value) 0 before rest = written)
    {before : Option Char} (started : endsIdentifier before = true) :
    Text.editFrom (identifierRule key value) 0 before (key ++ rest) = value ++ written := by
  have start : key.isPrefixOf (key ++ rest) = true :=
    List.isPrefixOf_iff_prefix.mpr (List.prefix_append _ _)
  have closed : endsIdentifier ((key ++ rest).drop key.length).head? = true := by
    rw [List.drop_left]
    cases rest with
    | nil => rfl
    | cons c rest =>
        have other : Text.isIdentifierChar c = false := ended c rfl
        simp [endsIdentifier, other]
  have fired : identifierRule key value before (key ++ rest) = some (value, key.length) := by
    rw [identifierRule, if_pos start, started, closed]
    rfl
  have chars := identifier.isIdentifierChar
  obtain ⟨c, others, rfl⟩ := List.exists_cons_of_ne_nil identifier.ne_nil
  have within : endsIdentifier (some c) = false := by
    simp [endsIdentifier, chars c List.mem_cons_self]
  rw [List.cons_append] at fired
  rw [List.cons_append, Text.editFrom_fire fired, List.length_cons, Nat.add_sub_cancel,
    editFrom_identifierRule_append identifier value
      (fun d inside => chars d (List.mem_cons_of_mem c inside)) ended followed (Nat.le_refl _)
      (.inl within),
    List.drop_length, List.nil_append]

/-- Where no identifier is under way, an identifier is replaced token by token. -/
theorem editFrom_identifierRule (identifier : IsIdentifier key) (value text : Text)
    {before : Option Char} (apart : endsIdentifier before = true ∨ IsEnd text) :
    Text.editFrom (identifierRule key value) 0 before text =
      rewriteTokens (fun token => if token = key then value else token) text := by
  induction text using tokenInduction generalizing before with
  | empty => rfl
  | other c rest other ih =>
      have stranger : c ∉ key := identifier.not_mem other
      have changed : [c] ≠ key := by
        rintro rfl
        exact stranger List.mem_cons_self
      have silent : identifierRule key value before (c :: rest) = none := by
        have absent : ¬ key <+: c :: rest := by
          rw [← List.nil_append (c :: rest), Text.prefix_append_cons_iff stranger, List.prefix_nil]
          exact identifier.ne_nil
        rw [← List.isPrefixOf_iff_prefix] at absent
        exact if_neg absent
      have closed : endsIdentifier (some c) = true := by simp [endsIdentifier, other]
      rw [Text.editFrom_copy silent, ih (.inl closed), rewriteTokens_cons _ other, if_neg changed,
        List.singleton_append]
  | identifier word rest isWord ended ih =>
      have started : endsIdentifier before = true := by
        refine apart.resolve_right fun stopped => ?_
        obtain ⟨c, others, rfl⟩ := List.exists_cons_of_ne_nil isWord.ne_nil
        have isChar := isWord.isIdentifierChar c List.mem_cons_self
        rw [stopped c rfl] at isChar
        cases isChar
      have followed := fun before => @ih before (.inr ended)
      rw [rewriteTokens_word_append _ isWord ended]
      by_cases same : word = key
      · rw [same, if_pos rfl, editFrom_identifierRule_key identifier value ended followed started]
      · rw [if_neg same, editFrom_identifierRule_append identifier value isWord.isIdentifierChar
          ended followed (Nat.zero_le _) (.inr same), List.drop_zero]

/-- The identifiers of a text that are equal to the key are replaced, and nothing else is. -/
theorem replaceIdentifier_eq_rewriteTokens (identifier : IsIdentifier key) (value text : Text) :
    replaceIdentifier key value text =
      rewriteTokens (fun token => if token = key then value else token) text := by
  rw [replaceIdentifier, if_neg (by simpa using identifier.ne_nil), Text.edit,
    editFrom_identifierRule identifier value text (.inl rfl)]

end

/-- What a token is replaced by. -/
def valueOf (bindings : List (Text × Text)) (token : Text) : Text :=
  (bindings.lookup token).getD token

/-- Bindings of identifiers, no value of which uses a name that is bound. -/
structure Unrelated (bindings : List (Text × Text)) : Prop where
  identifier : ∀ binding ∈ bindings, IsIdentifier binding.1
  unused : ∀ binding ∈ bindings, ∀ other ∈ bindings, binding.1 ∉ tokens other.2

section

variable {bindings order others : List (Text × Text)} {binding : Text × Text}

theorem Unrelated.of_subset (unrelated : Unrelated bindings) (inside : order ⊆ bindings) :
    Unrelated order where
  identifier := fun binding member => unrelated.identifier binding (inside member)
  unused := fun binding member other also =>
    unrelated.unused binding (inside member) other (inside also)

@[simp] theorem valueOf_nil (token : Text) : valueOf [] token = token := rfl

theorem valueOf_cons (binding : Text × Text) (others : List (Text × Text)) (token : Text) :
    valueOf (binding :: others) token =
      if token = binding.1 then binding.2 else valueOf others token := by
  obtain ⟨name, value⟩ := binding
  by_cases same : token = name
  · simp [valueOf, same]
  · have apart : (token == name) = false := by simpa using same
    simp only [valueOf, List.lookup_cons, apart, if_neg same]

theorem valueOf_of_not_mem {token : Text} (unbound : ∀ binding ∈ bindings, binding.1 ≠ token) :
    valueOf bindings token = token := by
  induction bindings with
  | nil => rfl
  | cons binding others ih =>
      obtain ⟨first, later⟩ := List.forall_mem_cons.mp unbound
      rw [valueOf_cons, if_neg (Ne.symm first), ih later]

/-- Where the names differ, the order of the bindings does not matter to what a token is replaced
by. -/
theorem valueOf_perm (reordered : order.Perm bindings)
    (distinct : (bindings.map Prod.fst).Nodup) (token : Text) :
    valueOf order token = valueOf bindings token := by
  induction reordered with
  | nil => rfl
  | cons binding _ ih =>
      rw [List.map_cons, List.nodup_cons] at distinct
      rw [valueOf_cons, valueOf_cons, ih distinct.2]
  | swap first second others =>
      rw [List.map_cons, List.map_cons, List.nodup_cons, List.mem_cons, not_or] at distinct
      have apart : first.1 ≠ second.1 := distinct.1.1
      simp only [valueOf_cons]
      by_cases one : token = first.1
      · rw [if_pos one, if_neg (one ▸ apart), if_pos one]
      · rw [if_neg one, if_neg one]
  | trans _ behind first second =>
      have between := (behind.map Prod.fst).nodup_iff.mpr distinct
      rw [first between, second distinct]

/-- Bindings whose values use none of the names are carried out all at once. -/
theorem substitute_eq_rewriteTokens (unrelated : Unrelated bindings) (text : Text) :
    substitute bindings text = rewriteTokens (valueOf bindings) text := by
  induction bindings generalizing text with
  | nil =>
      rw [substitute_nil, rewriteTokens_of_unchanged fun token _ => valueOf_nil token]
  | cons binding others ih =>
      have identifier := unrelated.identifier binding List.mem_cons_self
      have copied : ∀ c, Text.isIdentifierChar c = false →
          (if [c] = binding.1 then binding.2 else [c]) = [c] := by
        intro c other
        refine if_neg fun same => ?_
        exact identifier.not_mem other (same ▸ List.mem_cons_self)
      rw [substitute_cons, ih (unrelated.of_subset (List.subset_cons_self binding others)),
        replaceIdentifier_eq_rewriteTokens identifier, rewriteTokens_rewriteTokens _ copied]
      refine rewriteTokens_congr fun token inside => ?_
      rw [valueOf_cons]
      by_cases same : token = binding.1
      · -- The value of this binding is left alone by the others.
        rw [if_pos same, if_pos same]
        refine rewriteTokens_of_unchanged fun used within => ?_
        refine valueOf_of_not_mem fun other listed => ?_
        rintro rfl
        exact unrelated.unused other (List.mem_cons_of_mem binding listed) binding
          List.mem_cons_self within
      · rw [if_neg same, if_neg same, rewriteTokens_of_mem _ inside]

end

/-- Replacing an identifier rewrites the tokens that are equal to it. Hence bindings with different
names, none of which is used in a value, rewrite all their names at once, in whichever order they
are carried out. -/
theorem substitute_perm :
    (∀ key value text, IsIdentifier key →
      replaceIdentifier key value text =
        rewriteTokens (fun token => if token = key then value else token) text) ∧
    ∀ bindings : List (Text × Text), (bindings.map Prod.fst).Nodup → Unrelated bindings →
      ∀ order, order.Perm bindings → ∀ text,
        substitute order text = rewriteTokens (valueOf bindings) text := by
  refine ⟨fun key value text identifier =>
    replaceIdentifier_eq_rewriteTokens identifier value text, ?_⟩
  intro bindings distinct unrelated order reordered text
  rw [substitute_eq_rewriteTokens (unrelated.of_subset reordered.subset)]
  exact rewriteTokens_congr fun token _ => valueOf_perm reordered distinct token

def templateBindings : List (Text × Text) := [("T", "const T2*"), ("U", "std::pair<T1, U_>")]

theorem substitute_templateBindings :
    (templateBindings.map Prod.fst).Nodup ∧ Unrelated templateBindings ∧
      templateBindings.reverse.Perm templateBindings ∧
      substitute templateBindings.reverse "U f(T, T2)" =
        rewriteTokens (valueOf templateBindings) "U f(T, T2)" ∧
      IsIdentifier "T" ∧
      replaceIdentifier "T" "int" "T f(T2)" =
        rewriteTokens (fun token => if token = "T".toList then "int" else token) "T f(T2)" := by
  have unrelated : Unrelated templateBindings := ⟨by decide, by decide +kernel⟩
  have distinct : (templateBindings.map Prod.fst).Nodup := by decide
  have reordered := List.reverse_perm templateBindings
  have single : IsIdentifier "T" := by decide
  exact ⟨distinct, unrelated, reordered,
    substitute_perm.2 _ distinct unrelated _ reordered _, single,
    substitute_perm.1 _ _ _ single⟩

/-- The clause's names are replaced whole, in either order of the bindings. -/
example : substitute templateBindings.reverse "U f(T, T2)" =
    "std::pair<T1, U_> f(const T2*, T2)" := by decide +kernel

end CompilerFront.Simplify
