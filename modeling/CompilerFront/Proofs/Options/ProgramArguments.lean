import CompilerFront.Program
import Mathlib.Data.List.TakeWhile

set_option autoImplicit false

namespace CompilerFront

def Task.handOver (programArguments : List Text) : Task → Task
  | .build config => .build { config with programArguments }
  | .debuggerHelp => .debuggerHelp

namespace Options

/-- The part of a command line that belongs to this program: its name, and behind that no
separator. -/
def IsOwnPart (own : List Text) : Prop := own ≠ [] ∧ separator ∉ own.tail

instance (own : List Text) : Decidable (IsOwnPart own) :=
  inferInstanceAs (Decidable (own ≠ [] ∧ separator ∉ own.tail))

theorem splitArguments_of_isOwnPart {own : List Text} (isOwn : IsOwnPart own) (tail : List Text) :
    splitArguments (own ++ separator :: tail) = (own, tail) := by
  obtain ⟨name, rest, rfl⟩ := List.exists_cons_of_ne_nil isOwn.1
  exact splitArguments_append tail isOwn.2

theorem splitArguments_of_not_mem_tail {arguments : List Text}
    (absent : separator ∉ arguments.tail) : splitArguments arguments = (arguments, []) := by
  cases arguments with
  | nil => rfl
  | cons name rest => exact splitArguments_of_not_mem absent

theorem separator_not_mem_splitArguments (arguments : List Text) :
    separator ∉ (splitArguments arguments).1.tail := by
  cases arguments with
  | nil => exact List.not_mem_nil
  | cons name rest =>
      intro inside
      have kept := List.mem_takeWhile_imp inside
      simp at kept

theorem existsUnique_cut {arguments : List Text} (present : separator ∈ arguments.tail) :
    ∃! parts : List Text × List Text,
      IsOwnPart parts.1 ∧ arguments = parts.1 ++ separator :: parts.2 := by
  cases arguments with
  | nil => exact absurd present List.not_mem_nil
  | cons name rest =>
      obtain ⟨own, tail, shape, absent⟩ := List.eq_append_cons_of_mem present
      have isOwn : IsOwnPart (name :: own) := ⟨List.cons_ne_nil name own, absent⟩
      have whole : name :: rest = (name :: own) ++ separator :: tail := congrArg (name :: ·) shape
      refine ⟨(name :: own, tail), ⟨isOwn, whole⟩, ?_⟩
      intro other cut
      -- Splitting the command line gives back whatever it was put together from.
      have split := splitArguments_of_isOwnPart cut.1 other.2
      rw [← cut.2, whole, splitArguments_of_isOwnPart isOwn] at split
      exact split.symm

/-- The arguments of the program are entered in a configuration, and nothing else is done with
them. -/
theorem configure_programArguments (options : Options) (exists? : Path → Bool)
    (platform : Platform) (programArguments : List Text) :
    options.configure exists? platform programArguments =
      (options.configure exists? platform []).map
        fun config => { config with programArguments } := by
  unfold configure
  cases options.mode with
  | error error => rfl
  | ok mode =>
      simp only [bind, Except.bind]
      split <;> rfl

theorem calledName_append {own : List Text} (named : own ≠ []) (rest : List Text) :
    calledName (own ++ rest) = calledName own := by
  obtain ⟨name, others, rfl⟩ := List.exists_cons_of_ne_nil named
  rfl

end Options

open Options

/-- The task is that of the program's own part, with the rest handed over. -/
theorem Task.ofArguments_eq_map (exists? : Path → Bool) (platform : Platform)
    (arguments : List Text) :
    Task.ofArguments exists? platform arguments =
      (Task.ofArguments exists? platform (splitArguments arguments).1).map
        (Task.handOver (splitArguments arguments).2) := by
  have again := splitArguments_of_not_mem_tail (separator_not_mem_splitArguments arguments)
  unfold Task.ofArguments
  rw [again]
  obtain ⟨own, tail⟩ := splitArguments arguments
  simp only
  cases Options.parse (own.drop 1) with
  | error stop => rfl
  | ok options =>
      simp only [configure_programArguments options exists? platform tail]
      split
      · rfl
      · cases options.configure exists? platform [] <;> rfl

theorem Task.programArguments_eq {exists? : Path → Bool} {platform : Platform}
    {arguments : List Text} {config : Config}
    (task : Task.ofArguments exists? platform arguments = .ok (.build config)) :
    config.programArguments = (splitArguments arguments).2 := by
  rw [Task.ofArguments_eq_map] at task
  cases own : Task.ofArguments exists? platform (splitArguments arguments).1 with
  | error refusal =>
      rw [own] at task
      cases task
  | ok given =>
      rw [own] at task
      cases given with
      | debuggerHelp => cases task
      | build config =>
          cases task
          rfl

/-- An error is told in the words of the program's own part. -/
theorem Program.refuse_append {own : List Text} (named : own ≠ []) (rest : List Text)
    (refusal : Refusal) : Program.refuse (own ++ rest) refusal = Program.refuse own refusal := by
  unfold Program.refuse
  rw [calledName_append named rest]

/-- Whatever stands behind the first separator is handed over to the program that is built. Nothing
of it is read: the command line is given the task of the program's own part, or refused for the same
reason in the same words. Every command line is cut in this way at one place, or has no separator
and hands nothing over. -/
theorem Task.ofArguments_handOver (exists? : Path → Bool) (platform : Platform) :
    (∀ own tail, IsOwnPart own →
      splitArguments (own ++ separator :: tail) = (own, tail) ∧
      Task.ofArguments exists? platform (own ++ separator :: tail) =
        (Task.ofArguments exists? platform own).map (Task.handOver tail) ∧
      ∀ refusal, Program.refuse (own ++ separator :: tail) refusal =
        Program.refuse own refusal) ∧
    ∀ arguments,
      (separator ∈ arguments.tail ∧
        ∃! parts : List Text × List Text,
          IsOwnPart parts.1 ∧ arguments = parts.1 ++ separator :: parts.2) ∨
      (separator ∉ arguments.tail ∧ splitArguments arguments = (arguments, []) ∧
        ∀ config, Task.ofArguments exists? platform arguments = .ok (.build config) →
          config.programArguments = []) := by
  constructor
  · intro own tail isOwn
    have cut := splitArguments_of_isOwnPart isOwn tail
    have task := Task.ofArguments_eq_map exists? platform (own ++ separator :: tail)
    rw [cut] at task
    exact ⟨cut, task, Program.refuse_append isOwn.1 (separator :: tail)⟩
  · intro arguments
    by_cases present : separator ∈ arguments.tail
    · exact .inl ⟨present, existsUnique_cut present⟩
    · have whole := splitArguments_of_not_mem_tail present
      refine .inr ⟨present, whole, ?_⟩
      intro config task
      rw [Task.programArguments_eq task, whole]

/-- A program that is called by the name of the separator. Behind the separator stand another one, a
mode that would contradict the one given, and a file that exists. The own part alone is no different
but that it hands nothing over. -/
theorem Task.ofArguments_calledSeparator :
    let exists? : Path → Bool := fun path => path.text ∈ (["a.c", "b.c"] : List Text)
    let config : Config :=
      { mode := .execute, language := .c, sources := [⟨"a.c"⟩], destination := ⟨"a"⟩
        optimize := false, debugSymbols := false, warnings := true, colour := true
        verbose := false, level := 0, passthrough := [], libraries := []
        gtk := false, gtkmm := false, programArguments := ["--", "-c", "b.c"]
        ignored := [] }
    IsOwnPart ["--", "-e", "a.c"] ∧
      Task.ofArguments exists? .unix ["--", "-e", "a.c", "--", "--", "-c", "b.c"] =
        .ok (.build config) ∧
      ∃ own, Task.ofArguments exists? .unix ["--", "-e", "a.c"] = .ok (.build own) ∧
        own.programArguments = [] := by
  intro exists? config
  have isOwn : IsOwnPart ["--", "-e", "a.c"] := by decide
  obtain ⟨cutting, whole⟩ := Task.ofArguments_handOver exists? .unix
  have alone : Task.ofArguments exists? .unix ["--", "-e", "a.c"] =
      .ok (.build { config with programArguments := [] }) := by decide +kernel
  refine ⟨isOwn, ?_, _, alone, ?_⟩
  · obtain ⟨-, task, -⟩ := cutting ["--", "-e", "a.c"] ["--", "-c", "b.c"] isOwn
    rw [alone] at task
    exact task
  · rcases whole ["--", "-e", "a.c"] with ⟨present, -⟩ | ⟨-, -, nothing⟩
    · exact absurd present isOwn.2
    · exact nothing _ alone

end CompilerFront
