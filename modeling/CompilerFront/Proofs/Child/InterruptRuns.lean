import CompilerFront.Child

set_option autoImplicit false

namespace CompilerFront.Interrupt

structure State where
  flag : Bool
  /-- Whether a call is under way. -/
  waiting : Bool

/-- An event with the outcome that it makes known. The key may be pressed in every state; a call
starts between calls, and ends in a failed start or with the child. -/
inductive Step : State → Event → Option Outcome → State → Prop
  | pressed (state : State) : Step state .pressed none { state with flag := true }
  | starting (flag : Bool) : Step ⟨flag, false⟩ .starting none ⟨false, true⟩
  | startFailed (flag : Bool) : Step ⟨flag, true⟩ .startFailed none ⟨flag, false⟩
  | ended (flag : Bool) (status : WaitStatus) :
      Step ⟨flag, true⟩ (.ended status) (some (conclude flag (.ofWaitStatus status)))
        ⟨false, false⟩

/-- An event and what was reported with it. -/
abbrev Report := Event × Option Outcome

/-- The reports of a run of any length. -/
inductive Run : State → List Report → State → Prop
  | done (state : State) : Run state [] state
  | next {start middle last : State} {event : Event} {outcome : Option Outcome}
      {rest : List Report} (step : Step start event outcome middle) (run : Run middle rest last) :
      Run start ((event, outcome) :: rest) last

theorem Step.eq_step {state next : State} {event : Event} {outcome : Option Outcome}
    (taken : Step state event outcome next) : step state.flag event = (next.flag, outcome) := by
  cases taken <;> rfl

theorem Step.deterministic {state first second : State} {event : Event}
    {known other : Option Outcome} (one : Step state event known first)
    (two : Step state event other second) : known = other ∧ first = second := by
  cases one <;> cases two <;> exact ⟨rfl, rfl⟩

theorem Run.deterministic {state first second : State} {one two : List Report}
    (run : Run state one first) (again : Run state two second)
    (same : one.map Prod.fst = two.map Prod.fst) : one = two := by
  induction run generalizing two with
  | done state =>
      cases again with
      | done => rfl
      | next step rest => cases same
  | next step rest ih =>
      cases again with
      | done => cases same
      | next other others =>
          obtain ⟨rfl, tails⟩ := List.cons.inj same
          obtain ⟨rfl, rfl⟩ := step.deterministic other
          rw [ih others tails]

theorem Run.split {start last : State} {first second : List Report}
    (run : Run start (first ++ second) last) :
    ∃ middle, Run start first middle ∧ Run middle second last := by
  induction first generalizing start with
  | nil => exact ⟨start, .done start, run⟩
  | cons report rest ih =>
      cases run with
      | next step run =>
          obtain ⟨middle, leading, trailing⟩ := ih run
          exact ⟨middle, .next step leading, trailing⟩

/-- The outcomes reported in a run are those that the flag alone gives for its events. -/
theorem Run.outcomes_eq {start last : State} {trace : List Report} (run : Run start trace last) :
    outcomes start.flag (trace.map Prod.fst) = trace.filterMap Prod.snd := by
  induction run with
  | done state => rfl
  | @next start middle last event outcome rest step run ih =>
      simp only [List.map_cons, outcomes, step.eq_step, ih]
      cases outcome <;> rfl

/-- A call that is under way, with the key pressed some times since it started. -/
def callReports (presses : Nat) : List Report :=
  (.starting, none) :: List.replicate presses (.pressed, none)

theorem callReports_succ (presses : Nat) :
    callReports (presses + 1) = callReports presses ++ [(.pressed, none)] := by
  rw [callReports, List.replicate_succ', ← List.cons_append, callReports]

/-- While a call is under way, the flag is up exactly if the key was pressed since it started. -/
def Invariant (trace : List Report) (state : State) : Prop :=
  state.waiting = true →
    ∃ earlier presses, trace = earlier ++ callReports presses ∧
      (state.flag = true ↔ 0 < presses)

theorem invariant_nil {state : State} (idle : state.waiting = false) : Invariant [] state := by
  intro waiting
  rw [idle] at waiting
  cases waiting

theorem Step.invariant {trace : List Report} {state next : State} {event : Event}
    {outcome : Option Outcome} (taken : Step state event outcome next)
    (before : Invariant trace state) : Invariant (trace ++ [(event, outcome)]) next := by
  intro waiting
  cases taken with
  | pressed =>
      obtain ⟨earlier, presses, reports, -⟩ := before waiting
      refine ⟨earlier, presses + 1, ?_, ?_⟩
      · rw [reports, callReports_succ, List.append_assoc]
      · simp
  | starting flag => exact ⟨trace, 0, rfl, by simp⟩
  | startFailed flag => cases waiting
  | ended flag status => cases waiting

theorem Run.invariant {earlier trace : List Report} {start last : State}
    (run : Run start trace last) (before : Invariant earlier start) :
    Invariant (earlier ++ trace) last := by
  induction run generalizing earlier with
  | done state => simpa using before
  | next step run ih =>
      have after := ih (step.invariant before)
      rwa [List.append_assoc, List.singleton_append] at after

/-- What is reported with the end of a child is concluded from its status and from whether the key
was pressed in its call. -/
theorem Run.outcome_of_ended {flag : Bool} {last : State} {before after : List Report}
    {status : WaitStatus} {outcome : Option Outcome}
    (run : Run ⟨flag, false⟩ (before ++ (.ended status, outcome) :: after) last) :
    ∃ earlier presses, before = earlier ++ callReports presses ∧
      outcome = some (conclude (0 < presses) (.ofWaitStatus status)) := by
  obtain ⟨middle, leading, trailing⟩ := run.split
  have known := leading.invariant (invariant_nil rfl)
  rw [List.nil_append] at known
  cases trailing with
  | next step rest =>
      cases step with
      | ended raised status =>
          obtain ⟨earlier, presses, reports, pressed⟩ := known rfl
          have flag_eq : raised = decide (0 < presses) := by
            rw [Bool.eq_iff_iff, decide_eq_true_iff]
            exact pressed
          exact ⟨earlier, presses, reports, by rw [flag_eq]⟩

/-- Starting a call lowers the flag, so nothing before it matters behind it. -/
theorem Run.eq_of_starting {start last otherStart otherLast : State}
    {before after otherBefore otherAfter : List Report}
    (run : Run start (before ++ (.starting, none) :: after) last)
    (other : Run otherStart (otherBefore ++ (.starting, none) :: otherAfter) otherLast)
    (same : otherAfter.map Prod.fst = after.map Prod.fst) : otherAfter = after := by
  obtain ⟨_, -, trailing⟩ := run.split
  obtain ⟨_, -, otherTrailing⟩ := other.split
  cases trailing with
  | next step rest =>
      cases otherTrailing with
      | next otherStep otherRest =>
          cases step
          cases otherStep
          exact otherRest.deterministic rest same

theorem conclude_of_ne_interrupted {flag : Bool} {outcome : Outcome}
    (uninterrupted : conclude flag outcome ≠ .interrupted) : conclude flag outcome = outcome := by
  unfold conclude at uninterrupted ⊢
  split at uninterrupted
  · exact absurd rfl uninterrupted
  · rename_i kept
    rw [if_neg kept]

/-- A child that did not succeed was interrupted exactly if the key was pressed between the start of
its call and its end; in every other case its status alone decides. What happened before a call
started, in earlier calls, between calls or in failed starts, changes nothing that is reported
from then on. -/
theorem Run.child_outcomes {flag : Bool} {last : State} {trace : List Report}
    (run : Run ⟨flag, false⟩ trace last) :
    outcomes flag (trace.map Prod.fst) = trace.filterMap Prod.snd ∧
    (∀ before status outcome after, trace = before ++ (.ended status, outcome) :: after →
      ∃ earlier presses, before = earlier ++ callReports presses ∧
        (outcome = some .interrupted ↔
          Outcome.ofWaitStatus status ≠ .success ∧ 0 < presses) ∧
        (outcome ≠ some .interrupted → outcome = some (.ofWaitStatus status)) ∧
        (status = .exited 0 → outcome = some .success)) ∧
    ∀ otherStart otherLast before otherBefore after otherAfter,
      trace = before ++ (.starting, none) :: after →
      Run otherStart (otherBefore ++ (.starting, none) :: otherAfter) otherLast →
      otherAfter.map Prod.fst = after.map Prod.fst → otherAfter = after := by
  refine ⟨run.outcomes_eq, ?_, ?_⟩
  · intro before status outcome after shape
    rw [shape] at run
    obtain ⟨earlier, presses, reports, known⟩ := run.outcome_of_ended
    have regular := Outcome.ofWaitStatus_ne_interrupted status
    rw [known]
    refine ⟨earlier, presses, reports, ?_, ?_, ?_⟩
    · rw [Option.some_inj, conclude_eq_interrupted_iff regular, decide_eq_true_iff]
      exact And.comm
    · intro uninterrupted
      rw [Ne, Option.some_inj] at uninterrupted
      rw [conclude_of_ne_interrupted uninterrupted]
    · rintro rfl
      exact congrArg some (conclude_success _)
  · intro otherStart otherLast before otherBefore after otherAfter shape other same
    rw [shape] at run
    exact run.eq_of_starting other same

/-- The key is pressed before the first call, which cannot start its child, and again in it. The
child of the next call is killed while the key is pressed; that of the last one exits on its own. -/
def pressedCalls : List Report :=
  [(.pressed, none), (.starting, none), (.pressed, none), (.startFailed, none), (.starting, none),
    (.pressed, none), (.ended (.killed 2), some .interrupted), (.pressed, none), (.starting, none),
    (.ended (.exited 1), some (.failed 1))]

theorem run_pressedCalls : Run ⟨true, false⟩ pressedCalls ⟨false, false⟩ := by
  refine .next (.pressed _) ?_
  refine .next (.starting true) (.next (.pressed _) (.next (.startFailed true) ?_))
  refine .next (.starting true) (.next (.pressed _) (.next (.ended true (.killed 2)) ?_))
  refine .next (.pressed _) ?_
  exact .next (.starting true) (.next (.ended false (.exited 1)) (.done _))

/-- Only the child that was waited for when the key was pressed is interrupted. -/
theorem outcomes_pressedCalls :
    Run ⟨true, false⟩ pressedCalls ⟨false, false⟩ ∧
      outcomes true (pressedCalls.map Prod.fst) = [.interrupted, .failed 1] ∧
      ∃ earlier presses, pressedCalls.take 6 = earlier ++ callReports presses ∧ 0 < presses := by
  obtain ⟨known, each, -⟩ := run_pressedCalls.child_outcomes
  obtain ⟨earlier, presses, before, interrupted, -, -⟩ :=
    each (pressedCalls.take 6) (.killed 2) (some .interrupted) (pressedCalls.drop 7) rfl
  exact ⟨run_pressedCalls, known, earlier, presses, before, (interrupted.mp rfl).2⟩

end CompilerFront.Interrupt
