import CompilerFront.Language

set_option autoImplicit false

namespace CompilerFront

/-- Whether the kind of a file stands for a language; lexer inputs and unknown files have none. -/
def Path.isRecognised (file : Path) : Bool := file.kind ≠ .lexer && file.kind ≠ .unknown

theorem Path.isRecognised_iff {file : Path} :
    file.isRecognised = true ↔ ∃ language, file.kind.language? = some language := by
  unfold Path.isRecognised
  cases file.kind <;> simp [SourceKind.language?]

namespace Language

def listed (files : List Path) : List Language := files.filterMap fun file => file.kind.language?

theorem mem_listed {files : List Path} {language : Language} :
    language ∈ listed files ↔ ∃ file ∈ files, file.kind.language? = some language :=
  List.mem_filterMap

/-- A language is common to a list if something is listed and nothing else is. -/
theorem common_eq_iff {languages : List Language} {language : Language}
    (specified : language ≠ .unspecified) :
    common languages = language ↔ languages ≠ [] ∧ ∀ other ∈ languages, other = language := by
  cases languages with
  | nil =>
      constructor
      · intro same
        exact absurd same.symm specified
      · intro both
        exact absurd rfl both.1
  | cons first rest =>
      rw [common]
      by_cases agree : rest.all (· = first) = true
      · rw [if_pos agree]
        constructor
        · rintro rfl
          refine ⟨List.cons_ne_nil first rest, fun other inside => ?_⟩
          rcases List.mem_cons.mp inside with same | later
          · exact same
          · exact of_decide_eq_true (List.all_eq_true.mp agree other later)
        · intro both
          exact both.2 first List.mem_cons_self
      · rw [if_neg agree]
        constructor
        · intro same
          exact absurd same.symm specified
        · intro both
          -- All members are the language, so they agree with the first one after all.
          have first_eq : first = language := both.2 first List.mem_cons_self
          refine absurd (List.all_eq_true.mpr fun other inside => ?_) agree
          rw [decide_eq_true_eq, first_eq]
          exact both.2 other (List.mem_cons_of_mem first inside)

/-- Some files share a language if at least one of them is recognised and every one that has a
language has this one. -/
theorem ofFiles_eq_iff {language : Language} (specified : language ≠ .unspecified)
    (files : List Path) :
    ofFiles files = language ↔
      (∃ file ∈ files, file.isRecognised = true) ∧
        ∀ file ∈ files, ∀ other, file.kind.language? = some other → other = language := by
  have nonempty : listed files ≠ [] ↔ ∃ file ∈ files, file.isRecognised = true := by
    constructor
    · intro solid
      obtain ⟨first, inside⟩ := List.exists_mem_of_ne_nil _ solid
      obtain ⟨file, member, known⟩ := mem_listed.mp inside
      exact ⟨file, member, Path.isRecognised_iff.mpr ⟨first, known⟩⟩
    · rintro ⟨file, member, recognised⟩
      obtain ⟨language, known⟩ := Path.isRecognised_iff.mp recognised
      exact List.ne_nil_of_mem (mem_listed.mpr ⟨file, member, known⟩)
  show common (listed files) = language ↔ _
  rw [common_eq_iff specified, nonempty]
  apply and_congr_right
  intro _
  constructor
  · intro all file member other known
    exact all other (mem_listed.mpr ⟨file, member, known⟩)
  · intro all other inside
    obtain ⟨file, member, known⟩ := mem_listed.mp inside
    exact all file member other known

theorem eq_of_forall_specified {first second : Language}
    (agree : ∀ language, language ≠ .unspecified → (first = language ↔ second = language)) :
    first = second := by
  by_cases one : first = .unspecified
  · by_cases other : second = .unspecified
    · rw [one, other]
    · exact (agree second other).mpr rfl
  · exact ((agree first one).mp rfl).symm

/-- Nothing counts but which recognised files are listed. -/
theorem ofFiles_congr {first second : List Path}
    (same : ∀ file, file.isRecognised = true → (file ∈ first ↔ file ∈ second)) :
    ofFiles first = ofFiles second := by
  apply eq_of_forall_specified
  intro language specified
  rw [ofFiles_eq_iff specified, ofFiles_eq_iff specified]
  have known {file : Path} {other : Language} (named : file.kind.language? = some other) :
      file.isRecognised = true := Path.isRecognised_iff.mpr ⟨other, named⟩
  apply and_congr
  · constructor
    · rintro ⟨file, member, recognised⟩
      exact ⟨file, (same file recognised).mp member, recognised⟩
    · rintro ⟨file, member, recognised⟩
      exact ⟨file, (same file recognised).mpr member, recognised⟩
  · constructor
    · intro all file member other named
      exact all file ((same file (known named)).mpr member) other named
    · intro all file member other named
      exact all file ((same file (known named)).mp member) other named

/-- The language of some files is the one that all recognised files among them have, if there are
any. It stays the same when the files are put into another order, when files that are listed are
listed again, and when files that are not recognised come or go. -/
theorem ofFiles_shared (files : List Path) :
    (∀ language, language ≠ .unspecified →
      (ofFiles files = language ↔
        (∃ file ∈ files, file.isRecognised = true) ∧
          ∀ file ∈ files, ∀ other, file.kind.language? = some other → other = language)) ∧
    (∀ others, files.Perm others → ofFiles others = ofFiles files) ∧
    (∀ others, (∀ file, file ∈ others ↔ file ∈ files) → ofFiles others = ofFiles files) ∧
    ∀ others, others.filter Path.isRecognised = files.filter Path.isRecognised →
      ofFiles others = ofFiles files := by
  refine ⟨fun language specified => ofFiles_eq_iff specified files, ?_, ?_, ?_⟩
  · intro others reordered
    exact ofFiles_congr fun file _ => reordered.symm.mem_iff
  · intro others repeated
    exact ofFiles_congr fun file _ => repeated file
  · intro others kept
    apply ofFiles_congr
    intro file recognised
    have filtered : file ∈ others.filter Path.isRecognised ↔
        file ∈ files.filter Path.isRecognised := by rw [kept]
    simpa only [List.mem_filter, recognised, and_true] using filtered

/-- C files in any letter case, with a lexer input and a text between them; the same files the other
way round, with one of them twice, and without the text. -/
theorem ofFiles_letterCases :
    let files : List Path := [⟨"a.C"⟩, ⟨"scan.l"⟩, ⟨"notes.txt"⟩, ⟨"d/b.c/"⟩]
    ofFiles files = .c ∧
      ofFiles [⟨"d/b.c/"⟩, ⟨"notes.txt"⟩, ⟨"scan.l"⟩, ⟨"a.C"⟩] = ofFiles files ∧
      ofFiles [⟨"a.C"⟩, ⟨"scan.l"⟩, ⟨"a.C"⟩, ⟨"notes.txt"⟩, ⟨"d/b.c/"⟩] = ofFiles files ∧
      ofFiles [⟨"scan.L"⟩, ⟨"a.C"⟩, ⟨"d/b.c/"⟩] = ofFiles files := by
  intro files
  obtain ⟨shared, reordered, repeated, filtered⟩ := ofFiles_shared files
  have fewer : ∀ file ∈ ([⟨"a.C"⟩, ⟨"scan.l"⟩, ⟨"a.C"⟩, ⟨"notes.txt"⟩, ⟨"d/b.c/"⟩] : List Path),
      file ∈ files := by decide
  have more : ∀ file ∈ files,
      file ∈ ([⟨"a.C"⟩, ⟨"scan.l"⟩, ⟨"a.C"⟩, ⟨"notes.txt"⟩, ⟨"d/b.c/"⟩] : List Path) := by decide
  refine ⟨?_, ?_, ?_, ?_⟩
  · exact (shared .c (by decide)).mpr (by decide)
  · exact reordered _ (by decide)
  · exact repeated _ fun file => ⟨fewer file, more file⟩
  · exact filtered _ (by decide)

end Language

end CompilerFront
