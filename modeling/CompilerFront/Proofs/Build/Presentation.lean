import CompilerFront.Proofs.Build.Steps
import CompilerFront.Proofs.Session

set_option autoImplicit false

namespace CompilerFront.Build

open Session

/-- The part of a build that decides its result: the lexer inputs, the packages and the compiler. -/
def decision (build : Build) : Session (Except BuildError Unit) :=
  build.replaceLexerInputs.bind fun
    | .error error => .done (.error error)
    | .ok sources =>
        (build.askPackages (packages build.config)).bind fun flags =>
          build.compile (Command.compiler build.toolchain build.config sources flags)

/-- What follows the decision; it keeps the result. -/
def aftermath (build : Build) : Except BuildError Unit → Session (Except BuildError Unit)
  | .error error => .done (.error error)
  | .ok () => build.followUp.bind fun _ => .done (.ok ())

variable (build : Build)

theorem silenced_warnIgnored (operands : List Text) :
    (build.warnIgnored operands).silenced = .done () := by
  induction operands with
  | nil => rfl
  | cons operand rest ih => exact ih

theorem silenced_announce (command : Command) : (build.announce command).silenced = .done () := by
  unfold announce
  split <;> rfl

theorem silenced_showPrinted (stdout stderr : List UInt8) :
    (build.showPrinted stdout stderr).silenced = .done () := by
  simp only [showPrinted]
  split <;> rfl

theorem silenced_tellEnd (program : Text) (reply : Reply) :
    (build.tellEnd program reply).silenced = .done () := by
  cases reply <;> rfl

theorem silenced_run :
    build.run.silenced =
      build.decision.silenced.bind fun result => (build.aftermath result).silenced := by
  rw [run, bind_eq_bind, silenced_bind_of_done (build.silenced_warnIgnored _), bind_eq_bind,
    silenced_bind, decision, silenced_bind, bind_assoc]
  congr 1
  funext lexed
  cases lexed with
  | error error => rfl
  | ok sources =>
      simp only [finish, flagsOfPackages, bind_eq_bind]
      rw [silenced_bind, silenced_bind, bind_assoc]
      congr 1
      funext flags
      rw [silenced_bind_of_done (build.silenced_announce _), silenced_bind]
      congr 1
      funext compiled
      cases compiled with
      | error error => rfl
      | ok _ => rfl

/-- A compiler run asks for the command and judges the reply, whatever is shown of it. -/
theorem silenced_compile (command : Command) :
    (build.compile command).silenced =
      .ask (.capture command) fun reply => .done (compilerResult command.program reply) := by
  rw [compile, bind_eq_bind, silenced_bind]
  refine congrArg (Session.ask (.capture command)) (funext fun reply => ?_)
  cases reply with
  | notStarted reason => rfl
  | ended outcome stdout stderr =>
      have shown : Session.silenced ((build.showPrinted stdout stderr).bind fun _ =>
          .done (if outcome.succeeded then .ok ()
            else .error (.compilation command.program outcome))) =
          .done (compilerResult command.program (.ended outcome stdout stderr)) := by
        rw [silenced_bind_of_done (build.silenced_showPrinted stdout stderr), silenced_done,
          compilerResult, Reply.succeeded_ended]
        rfl
      exact shown

/-- Two builds with the same lexer runs, the same package queries and the same compiler run. -/
structure SameDecision (first second : Build) : Prop where
  toolchain : first.toolchain = second.toolchain
  platform : first.platform = second.platform
  sources : first.config.sources = second.config.sources
  packages : packages first.config = packages second.config
  compiler : ∀ sources flags,
    Command.compiler first.toolchain first.config sources flags =
      Command.compiler second.toolchain second.config sources flags

namespace SameDecision

variable {first second : Build}

theorem generated (same : SameDecision first second) (input : Path) (reply : Reply) :
    first.generated input reply = second.generated input reply := by
  have printed (stdout stderr : List UInt8) :
      first.printed stdout stderr = second.printed stdout stderr := by
    simp only [Build.printed, same.platform]
  cases reply with
  | notStarted reason => simp only [Build.generated, same.toolchain]
  | ended outcome stdout stderr =>
      cases outcome <;> simp only [Build.generated, same.toolchain, printed]

theorem generateAll (same : SameDecision first second) (inputs sources : List Path) :
    first.generateAll sources inputs = second.generateAll sources inputs := by
  induction inputs generalizing sources with
  | nil => rfl
  | cons input rest ih =>
      simp only [generateAll_cons, same.toolchain, same.generated, ih]

theorem askPackages (same : SameDecision first second) (packages : List Text) :
    first.askPackages packages = second.askPackages packages := by
  induction packages with
  | nil => rfl
  | cons package rest ih =>
      simp only [Build.askPackages, askPackage, same.toolchain, same.platform, ih]

theorem silenced_decision (same : SameDecision first second) :
    first.decision.silenced = second.decision.silenced := by
  simp only [decision, replaceLexerInputs, same.sources, same.generateAll, silenced_bind]
  congr 1
  funext lexed
  cases lexed with
  | error error => rfl
  | ok sources =>
      simp only [same.packages, same.askPackages, silenced_bind, silenced_compile, same.compiler]

end SameDecision

theorem silenced_aftermath_of_same {first second : Build}
    (same : Command.followUp? first.toolchain first.platform first.config =
      Command.followUp? second.toolchain second.platform second.config)
    (result : Except BuildError Unit) :
    (first.aftermath result).silenced = (second.aftermath result).silenced := by
  cases result with
  | error error => rfl
  | ok _ =>
      simp only [aftermath, followUp, same]
      cases Command.followUp? second.toolchain second.platform second.config with
      | none => rfl
      | some command =>
          simp only [bind_eq_bind, silenced_bind, silenced_tellEnd]

/-- The aftermath starts at most one command, whose output it leaves to the user. -/
theorem play_aftermath (machine : Machine) (past : List Request)
    (result : Except BuildError Unit) :
    captures (requests (play machine past (build.aftermath result)).1) = [] ∧
      (play machine past (build.aftermath result)).2 = result := by
  cases result with
  | error error => exact ⟨rfl, rfl⟩
  | ok _ =>
      obtain ⟨following, -, played⟩ := build.play_followUp machine past
      rw [aftermath, play_bind_of_play played, ← map_fst_exchanges]
      rcases following with _ | ⟨command, reply⟩
      · exact ⟨rfl, rfl⟩
      · cases reply <;> exact ⟨rfl, rfl⟩

/-- What a build captures, and its result, are those of its decision. -/
theorem play_run_eq_decision (machine : Machine) (past : List Request) :
    captures (requests (play machine past build.run).1) =
        captures (requests (play machine past build.decision.silenced).1) ∧
      (play machine past build.run).2 = (play machine past build.decision.silenced).2 := by
  obtain ⟨asked, result⟩ := play_silenced machine build.run past
  rw [build.silenced_run, play_bind] at asked result
  rw [← asked, ← result]
  generalize play machine past build.decision.silenced = decided
  obtain ⟨afterAsked, afterResult⟩ :=
    play_silenced machine (build.aftermath decided.2) (past ++ requests decided.1)
  obtain ⟨nothing, kept⟩ := build.play_aftermath machine (past ++ requests decided.1) decided.2
  constructor
  · rw [requests_append, captures_append, afterAsked, nothing, List.append_nil]
  · exact afterResult.trans kept

/-- Two builds of one task make the same requests and have the same result, however they are shown
to the user. With other arguments for the program that is built, they still capture the same
commands and have the same result. -/
theorem run_of_presentation (formatter : Formatter) (colour verbose : Bool) (level : Nat)
    (ignored programArguments : List Text) (machine : Machine) (past : List Request) :
    let shown : Build :=
      { build with formatter, config := { build.config with colour, verbose, level, ignored } }
    let rearmed : Build :=
      { shown with config := { shown.config with programArguments } }
    requests (play machine past shown.run).1 = requests (play machine past build.run).1 ∧
      (play machine past shown.run).2 = (play machine past build.run).2 ∧
      captures (requests (play machine past rearmed.run).1) =
        captures (requests (play machine past build.run).1) ∧
      (play machine past rearmed.run).2 = (play machine past build.run).2 := by
  intro shown rearmed
  have shownDecision : SameDecision shown build := ⟨rfl, rfl, rfl, rfl, fun _ _ => rfl⟩
  have rearmedDecision : SameDecision rearmed build := ⟨rfl, rfl, rfl, rfl, fun _ _ => rfl⟩
  have followed : Command.followUp? shown.toolchain shown.platform shown.config =
      Command.followUp? build.toolchain build.platform build.config := rfl
  have alike : shown.run.silenced = build.run.silenced := by
    rw [silenced_run, silenced_run, shownDecision.silenced_decision]
    congr 1
    funext result
    exact silenced_aftermath_of_same followed result
  obtain ⟨asked, result⟩ := play_eq_of_silenced_eq alike machine past
  obtain ⟨captured, decided⟩ := build.play_run_eq_decision machine past
  obtain ⟨recaptured, redecided⟩ := rearmed.play_run_eq_decision machine past
  rw [rearmedDecision.silenced_decision] at recaptured redecided
  exact ⟨asked, result, recaptured.trans captured.symm, redecided.trans decided.symm⟩

theorem capturesOnly_generateAll (inputs sources : List Path) :
    CapturesOnly (build.generateAll sources inputs) := by
  induction inputs generalizing sources with
  | nil => exact .done _
  | cons input rest ih =>
      rw [generateAll_cons]
      apply CapturesOnly.capture
      intro reply
      cases build.generated input reply with
      | error error => exact .done _
      | ok _ => exact ih _

theorem capturesOnly_askPackages (packages : List Text) :
    CapturesOnly (build.askPackages packages) := by
  induction packages with
  | nil => exact .done _
  | cons package rest ih =>
      have first : CapturesOnly (build.askPackage package) := .capture _ fun _ => .done _
      exact first.bind fun flags => ih.bind fun others => .done _

theorem capturesOnly_compile (command : Command) : CapturesOnly (build.compile command) := by
  apply CapturesOnly.capture
  intro reply
  cases reply with
  | notStarted reason => exact .done _
  | ended outcome stdout stderr =>
      have shown : CapturesOnly (build.showPrinted stdout stderr) := by
        simp only [showPrinted]
        split
        · exact .done _
        · exact .tell _ (.done _)
      exact shown.bind fun _ => .done _

theorem capturesOnly_decision : CapturesOnly build.decision := by
  apply (build.capturesOnly_generateAll _ _).bind
  intro lexed
  cases lexed with
  | error error => exact .done _
  | ok sources =>
      exact (build.capturesOnly_askPackages _).bind fun flags => build.capturesOnly_compile _

theorem play_run_snd (machine : Machine) (past : List Request) :
    (play machine past build.run).2 = (play machine past build.decision).2 :=
  (build.play_run_eq_decision machine past).2.trans (play_silenced machine build.decision past).2

/-- Machines that reply alike to what is captured give a build the same result, whatever becomes of
the interactive child. -/
theorem play_run_snd_congr {first second : Machine} (same : first.SameCaptures second) :
    (play first [] build.run).2 = (play second [] build.run).2 := by
  rw [play_run_snd, play_run_snd, build.capturesOnly_decision.play_congr same (by simp)]

/-- The message for the error that ends a build does not change the result. -/
theorem play_runAndReport_snd (machine : Machine) (past : List Request) :
    (play machine past build.runAndReport).2 = (play machine past build.run).2 := by
  rw [runAndReport, bind_eq_bind, play_bind]
  obtain ⟨events, result⟩ := play machine past build.run
  cases result with
  | error error => rfl
  | ok _ => rfl

end CompilerFront.Build
