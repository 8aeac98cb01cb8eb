import CompilerFront.Diagnostic

set_option autoImplicit false

namespace CompilerFront

inductive Outcome where
  | success
  | failed (status : Int32)
  | signaled (signal : Int32)
  /-- Waiting for the child was interrupted from the keyboard and the child did not succeed. -/
  | interrupted
  deriving DecidableEq, Repr

/-- What a status word says about a child: its exit status, the signal that killed it, or
neither. -/
inductive WaitStatus where
  | exited (status : Int32)
  | killed (signal : Int32)
  | neither
  deriving DecidableEq, Repr

namespace Outcome

/-- Zero is success, a positive code an exit status, a negative one the number of a signal. The
least code has no positive counterpart and stays as it is. -/
def ofCode (code : Int32) : Outcome :=
  if code = 0 then .success else if code < 0 then .signaled (-code) else .failed code

/-- A child that neither exited nor was killed counts as failed. -/
def ofWaitStatus : WaitStatus → Outcome
  | .exited status => ofCode status
  | .killed signal => .signaled signal
  | .neither => .failed 1

def succeeded (outcome : Outcome) : Bool := outcome = .success

def severity : Outcome → Severity
  | .success => .info
  | .failed _ => .warning
  | .signaled _ | .interrupted => .error

/-- The end of a child in words, to follow its name. -/
def describe : Outcome → Text
  | .success => "exited normally"
  | .failed status => "returned exit status " ++ Text.decimal status.toInt
  | .signaled signal => "terminated by signal " ++ Text.decimal signal.toInt
  | .interrupted => "terminated by interrupt"

theorem ofCode_ne_interrupted (code : Int32) : ofCode code ≠ .interrupted := by
  unfold ofCode
  split
  · simp
  · split <;> simp

theorem ofWaitStatus_ne_interrupted (status : WaitStatus) :
    ofWaitStatus status ≠ .interrupted := by
  cases status with
  | exited status => exact ofCode_ne_interrupted status
  | killed signal => simp [ofWaitStatus]
  | neither => simp [ofWaitStatus]

end Outcome

namespace Interrupt

inductive Event where
  /-- The interrupt key is pressed. -/
  | pressed
  /-- A child is about to be started. -/
  | starting
  /-- The child could not be started. -/
  | startFailed
  /-- The child that was started has ended. -/
  | ended (status : WaitStatus)
  deriving DecidableEq, Repr

/-- The outcome of a child, given whether the flag is up when it ends. A successful child stays
successful. -/
def conclude (flag : Bool) (outcome : Outcome) : Outcome :=
  if flag && !outcome.succeeded then .interrupted else outcome

/-- The flag behind an event, and the outcome that is known with it. -/
def step (flag : Bool) : Event → Bool × Option Outcome
  | .pressed => (true, none)
  | .starting => (false, none)
  | .startFailed => (flag, none)
  | .ended status => (false, some (conclude flag (.ofWaitStatus status)))

/-- The outcomes known in a course of events, in order. -/
def outcomes : Bool → List Event → List Outcome
  | _, [] => []
  | flag, event :: events =>
    let next := step flag event
    next.2.toList ++ outcomes next.1 events

@[simp] theorem conclude_success (flag : Bool) : conclude flag .success = .success := by
  cases flag <;> rfl

theorem conclude_eq_interrupted_iff {flag : Bool} {outcome : Outcome}
    (h : outcome ≠ .interrupted) :
    conclude flag outcome = .interrupted ↔ flag = true ∧ outcome ≠ .success := by
  cases flag <;> cases outcome <;> simp_all [conclude, Outcome.succeeded]

end Interrupt

end CompilerFront
