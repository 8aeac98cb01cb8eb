import CompilerFront.Program
import CompilerFront.Proofs.Build.Presentation
import CompilerFront.Proofs.Options.DefaultDestination

set_option autoImplicit false

namespace CompilerFront

namespace Options

variable {options : Options}

theorem length_modes_of_mode {mode : Mode} (single : options.mode = .ok mode) :
    options.modes.length ≤ 1 := by
  unfold Options.mode at single
  split at single
  · rename_i none
    simp [none]
  · rename_i one
    simp [one]
  · cases single

/-- Options make a configuration only if they choose one mode at most and name a file. -/
theorem Configured.single_mode_and_operand {exists? : Path → Bool} {platform : Platform}
    {config : Config} (made : options.Configured exists? platform config) :
    options.modes.length ≤ 1 ∧ ∃ operand ∈ options.operands, exists? ⟨operand⟩ = true := by
  refine ⟨length_modes_of_mode made.mode, ?_⟩
  obtain ⟨first, others, found, -⟩ := made.destination
  have source : first ∈ (options.operands.filter fun operand => exists? ⟨operand⟩).map Path.mk := by
    rw [← made.sources, found]
    exact List.mem_cons_self
  obtain ⟨operand, inside, -⟩ := List.mem_map.mp source
  exact ⟨operand, List.mem_filter.mp inside⟩

end Options

namespace Program

open Session

/-- The task of a command line, or why there is none. -/
def taskOf (surroundings : Surroundings) (arguments : List Text) : Except Refusal Task :=
  Task.ofArguments surroundings.exists? .host arguments

theorem plan_eq (surroundings : Surroundings) (arguments : List Text) :
    plan surroundings arguments =
      match taskOf surroundings arguments with
      | .ok .debuggerHelp => .error (success (Options.debuggerHelp ++ ['\n']))
      | .ok (.build config) => .ok (buildOf surroundings config)
      | .error refusal => .error (refuse arguments refusal) := rfl

/-- The children that the program starts, in order. -/
def started (machine : Machine) (surroundings : Surroundings) (arguments : List Text) :
    List Request :=
  requests (play machine [] (session surroundings arguments)).1

variable (machine : Machine) (surroundings : Surroundings) (arguments : List Text)

/-- Without a build the program starts nothing and ends as planned. -/
theorem play_session_of_error {ending : Ending}
    (planned : plan surroundings arguments = .error ending) (past : List Request) :
    play machine past (session surroundings arguments) = ([], ending) := by
  simp only [session, planned]
  rfl

theorem play_session_of_build {build : Build} (planned : plan surroundings arguments = .ok build)
    (past : List Request) :
    play machine past (session surroundings arguments) =
      ((play machine past build.runAndReport).1,
        ⟨statusOf (play machine past build.runAndReport).2, [], []⟩) := by
  simp only [session, planned, bind_eq_bind, play_bind, pure_eq_done, play_done, List.append_nil]

theorem statusOf_le_one (result : Except BuildError Unit) : statusOf result ≤ 1 := by
  unfold statusOf
  split <;> decide

theorem statusOf_eq_zero_iff {result : Except BuildError Unit} :
    statusOf result = 0 ↔ result = .ok () := by
  cases result <;> simp [statusOf, Except.isOk, Except.toBool]

/-- Only what was asked for ends the reading of the options without a failure. -/
theorem status_refuse (refusal : Refusal) :
    (refuse arguments refusal).status =
      if refusal = .stop .help ∨ refusal = .stop .version then 0 else 1 := by
  cases refusal with
  | stop stop => cases stop <;> simp [refuse, success, failure]
  | task error => simp [refuse, failure]

theorem status_run :
    (run machine surroundings arguments).status =
      match taskOf surroundings arguments with
      | .error refusal => if refusal = .stop .help ∨ refusal = .stop .version then 0 else 1
      | .ok .debuggerHelp => 0
      | .ok (.build config) => statusOf (play machine [] (buildOf surroundings config).run).2 := by
  have status : (run machine surroundings arguments).status =
      (play machine [] (session surroundings arguments)).2.status := rfl
  cases task : taskOf surroundings arguments with
  | error refusal =>
      have planned : plan surroundings arguments = .error (refuse arguments refusal) := by
        rw [plan_eq, task]
      rw [status, play_session_of_error machine surroundings arguments planned,
        status_refuse]
  | ok given =>
      cases given with
      | debuggerHelp =>
          have planned : plan surroundings arguments =
              .error (success (Options.debuggerHelp ++ ['\n'])) := by
            rw [plan_eq, task]
          rw [status, play_session_of_error machine surroundings arguments planned]
          rfl
      | build config =>
          have planned : plan surroundings arguments = .ok (buildOf surroundings config) := by
            rw [plan_eq, task]
          rw [status, play_session_of_build machine surroundings arguments planned,
            Build.play_runAndReport_snd]

theorem status_run_eq_zero_iff :
    (run machine surroundings arguments).status = 0 ↔
      taskOf surroundings arguments = .error (.stop .help) ∨
        taskOf surroundings arguments = .error (.stop .version) ∨
        taskOf surroundings arguments = .ok .debuggerHelp ∨
        ∃ config, taskOf surroundings arguments = .ok (.build config) ∧
          (play machine [] (buildOf surroundings config).run).2 = .ok () := by
  rw [status_run]
  cases taskOf surroundings arguments with
  | error refusal =>
      have asked : (refusal = .stop .help ∨ refusal = .stop .version) ↔
          (¬ refusal = .stop .help → refusal = .stop .version) := or_iff_not_imp_left
      simp [asked]
  | ok given =>
      cases given with
      | debuggerHelp => simp
      | build config => simp [statusOf_eq_zero_iff]

theorem status_run_le_one : (run machine surroundings arguments).status ≤ 1 := by
  rw [status_run]
  split
  · split <;> decide
  · decide
  · exact statusOf_le_one _

/-- The status hangs on the task and on what is captured. -/
theorem status_run_congr {other : Machine} {again : List Text}
    (task : taskOf surroundings again =
      taskOf surroundings arguments)
    (same : machine.SameCaptures other) :
    (run other surroundings again).status = (run machine surroundings arguments).status := by
  rw [status_run, status_run, task]
  split
  · rfl
  · rfl
  · rw [Build.play_run_snd_congr _ same]

theorem requests_of_not_build
    (idle : ∀ config, taskOf surroundings arguments ≠ .ok (.build config)) :
    started machine surroundings arguments = [] := by
  cases planned : plan surroundings arguments with
  | error ending =>
      rw [started, play_session_of_error machine surroundings arguments planned]
      rfl
  | ok build =>
      rw [plan_eq] at planned
      split at planned
      · cases planned
      · rename_i config task
        exact absurd task (idle config)
      · cases planned

/-- The program exits with status zero if it was asked for its help, its version or the reference
for the debugger, or if the build that it was asked for succeeds, and with status one in every other
case. Only a build starts children: none is started if two modes are chosen or no operand names a
file. What the interactive child does, and whether there is one, makes no difference to the
status. -/
theorem status_of_task :
    ((run machine surroundings arguments).status = 0 ↔
      taskOf surroundings arguments = .error (.stop .help) ∨
        taskOf surroundings arguments = .error (.stop .version) ∨
        taskOf surroundings arguments = .ok .debuggerHelp ∨
        ∃ config, taskOf surroundings arguments = .ok (.build config) ∧
          (play machine [] (buildOf surroundings config).run).2 = .ok ()) ∧
    ((run machine surroundings arguments).status = 0 ∨
      (run machine surroundings arguments).status = 1) ∧
    ((∀ config, taskOf surroundings arguments ≠ .ok (.build config)) →
      started machine surroundings arguments = []) ∧
    (∀ options, Options.parse ((Options.splitArguments arguments).1.drop 1) = .ok options →
      (2 ≤ options.modes.length ∨
        ∀ operand ∈ options.operands, surroundings.exists? ⟨operand⟩ = false) →
      started machine surroundings arguments = []) ∧
    ∀ again other, taskOf surroundings again = taskOf surroundings arguments →
      machine.SameCaptures other →
      (run other surroundings again).status = (run machine surroundings arguments).status := by
  have idle := requests_of_not_build machine surroundings arguments
  have small := status_run_le_one machine surroundings arguments
  refine ⟨status_run_eq_zero_iff machine surroundings arguments, ?_, idle, ?_, ?_⟩
  · exact Nat.le_one_iff_eq_zero_or_eq_one.mp small
  · intro options read refused
    apply idle
    intro config build
    obtain ⟨single, operand, inside, present⟩ :=
      (Task.configured_of_build build read).single_mode_and_operand
    rcases refused with several | absent
    · omega
    · rw [absent operand inside] at present
      cases present
  · intro again other task same
    exact status_run_congr machine surroundings arguments task same

def obliging : Machine := fun _ _ => .ended .success [] []

/-- What is captured succeeds, but no child can be started on the terminal. -/
def detached : Machine
  | _, .capture _ => .ended .success [] []
  | _, .interactive _ => .notStarted "no terminal"

def oneFile : Surroundings :=
  { exists? := fun path => path.text = "a.c".toList, environment := fun _ => none, terminal := false }

/-- Two modes for a file that exists start nothing, no more than one mode for a file that does not.
A build that is to be run succeeds even where it cannot be run. -/
theorem status_of_detached :
    started obliging oneFile ["ccwrap", "-c", "-e", "a.c"] = [] ∧
      (run obliging oneFile ["ccwrap", "-c", "-e", "a.c"]).status = 1 ∧
      started obliging oneFile ["ccwrap", "-e", "b.c"] = [] ∧
      (started obliging oneFile ["ccwrap", "-e", "a.c"]).length = 2 ∧
      obliging.SameCaptures detached ∧
      (run detached oneFile ["ccwrap", "-e", "a.c"]).status = 0 := by
  obtain ⟨conflictZero, conflictEither, -, conflicting, -⟩ :=
    status_of_task obliging oneFile ["ccwrap", "-c", "-e", "a.c"]
  obtain ⟨-, -, missing, -, -⟩ := status_of_task obliging oneFile ["ccwrap", "-e", "b.c"]
  obtain ⟨-, -, -, -, unaffected⟩ := status_of_task obliging oneFile ["ccwrap", "-e", "a.c"]
  have conflict : taskOf oneFile ["ccwrap", "-c", "-e", "a.c"] =
      .error (.task (.conflictingModes ["-c/--compile", "-e"])) := by decide +kernel
  have absent : taskOf oneFile ["ccwrap", "-e", "b.c"] =
      .error (.task (.noInputFiles ["b.c"])) := by decide +kernel
  have alike : obliging.SameCaptures detached := fun _ _ _ => rfl
  have built : (run obliging oneFile ["ccwrap", "-e", "a.c"]).status = 0 := by decide +kernel
  refine ⟨?_, ?_, ?_, by decide +kernel, alike, ?_⟩
  · exact conflicting
      { Options.nothing with switches := [.compile, .execute], operands := ["a.c"] }
      (by decide +kernel) (.inl (by decide))
  · have failed : (run obliging oneFile ["ccwrap", "-c", "-e", "a.c"]).status ≠ 0 := by
      rw [conflict] at conflictZero
      simpa using conflictZero
    exact conflictEither.resolve_left failed
  · apply missing
    rw [absent]
    simp
  · rw [unaffected _ _ rfl alike, built]

end Program

end CompilerFront
