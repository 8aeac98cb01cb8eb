import CompilerFront.Child
import CompilerFront.Command

set_option autoImplicit false

/-!
A session with the machine, as data: a session starts commands and goes on with what comes of
them, tells the user something, or is done. Playing it against a machine gives everything that
happened and the result; nothing else about the machine can reach the session.
-/
namespace CompilerFront

/-- A command to start, either with its output captured or with the terminal handed over. -/
inductive Request where
  | capture (command : Command)
  | interactive (command : Command)
  deriving DecidableEq, Repr

def Request.command : Request → Command
  | .capture command | .interactive command => command

/-- What comes of a request. -/
inductive Reply where
  /-- The command could not be started, for the reason given. -/
  | notStarted (reason : Text)
  | ended (outcome : Outcome) (stdout stderr : List UInt8)
  deriving DecidableEq, Repr

inductive Notice where
  /-- A message of this program, as it is shown. -/
  | message (severity : Severity) (shown : Text)
  /-- Compiler output, and how it is shown. -/
  | output (text shown : Text)
  deriving DecidableEq, Repr

inductive Session (α : Type) where
  | done (value : α)
  | tell (notice : Notice) (rest : Session α)
  | ask (request : Request) (resume : Reply → Session α)

inductive Event where
  | told (notice : Notice)
  | asked (request : Request) (reply : Reply)
  deriving DecidableEq, Repr

/-- A machine answers a request in the light of all requests made before it. -/
abbrev Machine := List Request → Request → Reply

namespace Session

variable {α β γ : Type}

def bind : Session α → (α → Session β) → Session β
  | done value, next => next value
  | tell notice rest, next => tell notice (rest.bind next)
  | ask request resume, next => ask request fun reply => (resume reply).bind next

instance : Monad Session where
  pure := done
  bind := bind

def notify (notice : Notice) : Session Unit := tell notice (done ())

def request (request : Request) : Session Reply := ask request done

/-- The course of a session on a machine, after some requests were made, and its result. -/
def play (machine : Machine) : List Request → Session α → List Event × α
  | _, done value => ([], value)
  | past, tell notice rest =>
    let course := play machine past rest
    (.told notice :: course.1, course.2)
  | past, ask request resume =>
    let reply := machine past request
    let course := play machine (past ++ [request]) (resume reply)
    (.asked request reply :: course.1, course.2)

/-- Carries a session out with the effects of a monad. -/
def interpret {m : Type → Type} [Monad m] (answer : Request → m Reply)
    (present : Notice → m Unit) : Session α → m α
  | done value => pure value
  | tell notice rest => do
    present notice
    rest.interpret answer present
  | ask request resume => do
    (resume (← answer request)).interpret answer present

def requests : List Event → List Request
  | [] => []
  | .told _ :: events => requests events
  | .asked request _ :: events => request :: requests events

@[simp] theorem requests_append (first second : List Event) :
    requests (first ++ second) = requests first ++ requests second := by
  induction first with
  | nil => rfl
  | cons event events ih => cases event <;> simp [requests, ih]

@[simp] theorem play_done (machine : Machine) (past : List Request) (value : α) :
    play machine past (done value) = ([], value) := rfl

/-- What follows a session is played after the requests that the session made. -/
theorem play_bind (machine : Machine) (session : Session α) (next : α → Session β)
    (past : List Request) :
    play machine past (session.bind next) =
      let course := play machine past session
      let after := play machine (past ++ requests course.1) (next course.2)
      (course.1 ++ after.1, after.2) := by
  induction session generalizing past with
  | done value => simp [bind, play, requests]
  | tell notice rest ih => simp [bind, play, requests, ih]
  | ask request resume ih => simp [bind, play, requests, ih, List.append_assoc]

theorem bind_assoc (session : Session α) (next : α → Session β) (last : β → Session γ) :
    (session.bind next).bind last = session.bind fun value => (next value).bind last := by
  induction session with
  | done value => rfl
  | tell notice rest ih => simp [bind, ih]
  | ask request resume ih => simp [bind, ih]

end Session

end CompilerFront
