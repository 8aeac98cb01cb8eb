import CompilerFront.Simplify.Fragment
import CompilerFront.Proofs.Text.Occurrence

set_option autoImplicit false

/-!
Folding the character templates. The full names are told apart by how they begin, and nothing in
them or in a short name begins like that. So each of the replacements finds its own name, whatever
the others have written before, and they may be carried out in any order.
-/
namespace CompilerFront.Simplify

/-- How every full name begins. -/
def fullNameStart : Text := "basic_"

/-- A text at the full names in it: what stands in front of the first one, and each of them, with
its short name, and what stands behind it. -/
structure NamedText where
  lead : Text
  parts : List ((Text × Text) × Text)
  listed : ∀ part ∈ parts, part.1 ∈ charTypedefs
  unnamedLead : ¬ fullNameStart <:+: lead
  unnamed : ∀ part ∈ parts, ¬ fullNameStart <:+: part.2

namespace NamedText

/-- A text with something written for each of its names. -/
def written (write : Text × Text → Text) (lead : Text) (parts : List ((Text × Text) × Text)) :
    Text :=
  lead ++ parts.flatMap fun part => write part.1 ++ part.2

def full (text : NamedText) : Text := written Prod.fst text.lead text.parts

def short (text : NamedText) : Text := written Prod.snd text.lead text.parts

/-- What is written for a name when some names have been folded. -/
def folded (done : List (Text × Text)) (names : Text × Text) : Text :=
  if names ∈ done then names.2 else names.1

end NamedText

theorem fullNameStart_leads : ∀ names ∈ charTypedefs, fullNameStart <+: names.1 := by
  decide +kernel

/-- No end of what every full name begins with begins a full name or a short one. -/
theorem unmet_fullNameStart :
    ∀ names ∈ charTypedefs, ∀ right ∈ fullNameStart.tails, right ≠ [] → right ≠ fullNameStart →
      ¬ (right <+: names.1 ∨ names.1 <+: right) ∧ ¬ (right <+: names.2 ∨ names.2 <+: right) := by
  decide +kernel

theorem unrelated_shortName :
    ∀ names ∈ charTypedefs, ∀ tail ∈ names.2.tails, tail ≠ [] →
      ¬ (fullNameStart <+: tail ∨ tail <+: fullNameStart) := by
  decide +kernel

theorem unrelated_tail :
    ∀ names ∈ charTypedefs, ∀ tail ∈ names.1.tail.tails, tail ≠ [] →
      ¬ (fullNameStart <+: tail ∨ tail <+: fullNameStart) := by
  decide +kernel

theorem not_prefix_fullName :
    ∀ names ∈ charTypedefs, ∀ other ∈ charTypedefs, names ≠ other →
      ¬ (names.1 <+: other.1 ∨ other.1 <+: names.1) := by
  decide +kernel

section

variable {names : Text × Text}

theorem fullName_ne_nil (listed : names ∈ charTypedefs) : names.1 ≠ [] := by
  intro empty
  have start := fullNameStart_leads names listed
  rw [empty] at start
  exact absurd (List.prefix_nil.mp start) (by decide)

/-- Where no full name stands, none begins in front of a name, written out or folded. -/
theorem apart_chunk (listed : names ∈ charTypedefs) {other : Text × Text}
    (isName : other ∈ charTypedefs) {chunk written : Text} (unnamed : ¬ fullNameStart <:+: chunk)
    (either : written = other.1 ∨ written = other.2) (rest : Text) :
    Text.Apart names.1 chunk (written ++ rest) := by
  have apart : Text.Apart fullNameStart chunk (written ++ rest) := by
    refine Text.apart_of_absent unnamed fun right ending solid proper start => ?_
    have met := List.prefix_or_prefix_of_prefix start (List.prefix_append written rest)
    obtain ⟨long, brief⟩ := unmet_fullNameStart other isName right ending solid proper
    rcases either with rfl | rfl
    · exact long met
    · exact brief met
  exact apart.of_start (fullNameStart_leads names listed)

theorem apart_shortName (listed : names ∈ charTypedefs) {other : Text × Text}
    (isName : other ∈ charTypedefs) (rest : Text) : Text.Apart names.1 other.2 rest :=
  (Text.apart_of_unrelated (unrelated_shortName other isName) rest).of_start
    (fullNameStart_leads names listed)

theorem apart_fullName (listed : names ∈ charTypedefs) {other : Text × Text}
    (isName : other ∈ charTypedefs) (different : names ≠ other) (rest : Text) :
    Text.Apart names.1 other.1 rest := by
  have behind : Text.Apart names.1 other.1.tail rest :=
    (Text.apart_of_unrelated (unrelated_tail other isName) rest).of_start
      (fullNameStart_leads names listed)
  have front : ¬ names.1 <+: other.1 ++ rest := fun start =>
    not_prefix_fullName names listed other isName different
      (List.prefix_or_prefix_of_prefix start (List.prefix_append other.1 rest))
  obtain ⟨c, tail, shape⟩ := List.exists_cons_of_ne_nil (fullName_ne_nil isName)
  rw [shape] at behind front ⊢
  exact Text.apart_cons.mpr ⟨front, behind⟩

end

namespace NamedText

/-- Folding one name writes its short form wherever it is written out, and changes nothing else. -/
theorem replaceAll_written {names : Text × Text} (listed : names ∈ charTypedefs)
    {write : Text × Text → Text} (either : ∀ other, write other = other.1 ∨ write other = other.2)
    {lead : Text} {parts : List ((Text × Text) × Text)}
    (areNames : ∀ part ∈ parts, part.1 ∈ charTypedefs)
    (unnamedLead : ¬ fullNameStart <:+: lead)
    (unnamed : ∀ part ∈ parts, ¬ fullNameStart <:+: part.2) :
    Text.replaceAll names.1 names.2 (written write lead parts) =
      written (fun other => if other = names then names.2 else write other) lead parts := by
  induction parts generalizing lead with
  | nil =>
      have absent : ¬ names.1 <:+: lead := fun inside =>
        unnamedLead ((fullNameStart_leads names listed).isInfix.trans inside)
      simpa [written] using Text.replaceAll_of_not_infix names.2 absent
  | cons part parts ih =>
      obtain ⟨other, chunk⟩ := part
      obtain ⟨isName, areNames⟩ := List.forall_mem_cons.mp areNames
      obtain ⟨unnamedChunk, unnamed⟩ := List.forall_mem_cons.mp unnamed
      have split (write : Text × Text → Text) : written write lead ((other, chunk) :: parts) =
          lead ++ (write other ++ written write chunk parts) := by
        simp [written]
      rw [split, split, Text.replaceAll_append_of_apart
        (apart_chunk listed isName unnamedLead (either other) _),
        ← ih areNames unnamedChunk unnamed]
      congr 1
      by_cases same : other = names
      · rw [if_pos same, same]
        rcases either names with full | short
        · rw [full, Text.replaceAll_self_append (fullName_ne_nil listed)]
        · rw [short, Text.replaceAll_append_of_apart (apart_shortName listed listed _)]
      · rw [if_neg same]
        rcases either other with full | short
        · rw [full, Text.replaceAll_append_of_apart
            (apart_fullName listed isName (Ne.symm same) _)]
        · rw [short, Text.replaceAll_append_of_apart (apart_shortName listed isName _)]

variable (text : NamedText)

/-- Folding some names, one after the other, writes their short forms. -/
theorem foldl_replaceAll {order : List (Text × Text)} (listed : order ⊆ charTypedefs)
    (done : List (Text × Text)) :
    order.foldl (fun code names => Text.replaceAll names.1 names.2 code)
        (written (folded done) text.lead text.parts) =
      written (folded (done ++ order)) text.lead text.parts := by
  induction order generalizing done with
  | nil => rw [List.foldl_nil, List.append_nil]
  | cons names order ih =>
      obtain ⟨isName, others⟩ := List.cons_subset.mp listed
      have either (other : Text × Text) :
          folded done other = other.1 ∨ folded done other = other.2 := by
        by_cases before : other ∈ done
        · exact .inr (if_pos before)
        · exact .inl (if_neg before)
      have step : (fun other => if other = names then names.2 else folded done other) =
          folded (done ++ [names]) := by
        funext other
        by_cases same : other = names
        · simp [folded, same]
        · simp [folded, same]
      rw [List.foldl_cons,
        replaceAll_written isName either text.listed text.unnamedLead text.unnamed, step,
        ih others, List.append_assoc, List.singleton_append]

/-- Folding all the names, in whichever order, writes the short form of each. -/
theorem foldl_replaceAll_of_subset {order : List (Text × Text)} (listed : order ⊆ charTypedefs)
    (complete : charTypedefs ⊆ order) :
    order.foldl (fun code names => Text.replaceAll names.1 names.2 code) text.full =
      text.short := by
  have start : text.full = written (folded []) text.lead text.parts := by
    simp [full, written, folded]
  rw [start, text.foldl_replaceAll listed, List.nil_append, short, written, written]
  congr 1
  refine List.flatMap_congr fun part inside => ?_
  rw [folded, if_pos (complete (text.listed part inside))]

end NamedText

/-- In a text in which nothing but the full names begins as they do, folding the character templates
writes the short name for every full one, and it does so in every order of the table. -/
theorem foldCharTypedefs_full (text : NamedText) :
    foldCharTypedefs text.full = text.short ∧
      ∀ order : List (Text × Text), order.Perm charTypedefs →
        order.foldl (fun code names => Text.replaceAll names.1 names.2 code) text.full =
          text.short :=
  ⟨text.foldl_replaceAll_of_subset (List.Subset.refl charTypedefs)
      (List.Subset.refl charTypedefs),
    fun _ reordered => text.foldl_replaceAll_of_subset reordered.subset reordered.symm.subset⟩

/-- Two full names, of which one is preceded by what could be the beginning of another. -/
def signature : NamedText where
  lead := "void basic"
  parts :=
    [(("basic_string<wchar_t, char_traits<wchar_t>, allocator<wchar_t>>", "wstring"), "_(const "),
      (("basic_ostream<char, char_traits<char>>", "ostream"), "&)")]
  listed := by decide +kernel
  unnamedLead := by decide
  unnamed := by decide

theorem foldl_signature :
    charTypedefs.reverse.Perm charTypedefs ∧
      charTypedefs.reverse.foldl (fun code names => Text.replaceAll names.1 names.2 code)
        signature.full = signature.short := by
  have reordered := List.reverse_perm charTypedefs
  exact ⟨reordered, (foldCharTypedefs_full signature).2 _ reordered⟩

example : signature.short = "void basicwstring_(const ostream&)" := by decide

end CompilerFront.Simplify
