import CompilerFront.Session

set_option autoImplicit false

namespace CompilerFront

/-- Whether a child was started and ended in success. -/
def Reply.succeeded : Reply → Bool
  | .ended .success _ _ => true
  | _ => false

theorem Reply.succeeded_iff {reply : Reply} :
    reply.succeeded = true ↔ ∃ stdout stderr, reply = .ended .success stdout stderr := by
  cases reply with
  | notStarted reason => simp [succeeded]
  | ended outcome stdout stderr => cases outcome <;> simp [succeeded]

theorem Reply.succeeded_ended (outcome : Outcome) (stdout stderr : List UInt8) :
    (Reply.ended outcome stdout stderr).succeeded = outcome.succeeded := by
  cases outcome <;> rfl

def Request.captured? : Request → Option Command
  | .capture command => some command
  | .interactive _ => none

/-- The machines reply alike to what is captured, as long as nothing else was asked for before. -/
def Machine.SameCaptures (first second : Machine) : Prop :=
  ∀ past command, (∀ request ∈ past, request.captured?.isSome = true) →
    first past (.capture command) = second past (.capture command)

namespace Session

variable {α β : Type}

/-- The requests in a course of events, each with its reply. -/
def exchanges : List Event → List (Request × Reply)
  | [] => []
  | .told _ :: events => exchanges events
  | .asked request reply :: events => (request, reply) :: exchanges events

@[simp] theorem exchanges_append (first second : List Event) :
    exchanges (first ++ second) = exchanges first ++ exchanges second := by
  induction first with
  | nil => rfl
  | cons event events ih =>
      cases event with
      | told notice => exact ih
      | asked request reply => exact congrArg ((request, reply) :: ·) ih

theorem map_fst_exchanges (events : List Event) :
    (exchanges events).map Prod.fst = requests events := by
  induction events with
  | nil => rfl
  | cons event events ih =>
      cases event with
      | told notice => exact ih
      | asked request reply => exact congrArg (request :: ·) ih

/-- Every reply is what the machine answers in the light of all requests made before. -/
def Answered (machine : Machine) : List Request → List (Request × Reply) → Prop
  | _, [] => True
  | past, (request, reply) :: rest =>
      reply = machine past request ∧ Answered machine (past ++ [request]) rest

theorem play_answered (machine : Machine) (session : Session α) (past : List Request) :
    Answered machine past (exchanges (play machine past session).1) := by
  induction session generalizing past with
  | done value => exact True.intro
  | tell notice rest ih => exact ih past
  | ask request resume ih => exact ⟨rfl, ih _ _⟩

theorem bind_eq_bind (session : Session α) (next : α → Session β) :
    (session >>= next) = session.bind next := rfl

theorem pure_eq_done (value : α) : (pure value : Session α) = .done value := rfl

/-- What follows a session of known course and result. -/
theorem play_bind_of_play {machine : Machine} {past : List Request} {session : Session α}
    {events : List Event} {value : α} (played : play machine past session = (events, value))
    (next : α → Session β) :
    play machine past (session.bind next) =
      (events ++ (play machine (past ++ requests events) (next value)).1,
        (play machine (past ++ requests events) (next value)).2) := by
  simp only [play_bind, played]

/-- The session with all its notices left out. -/
def silenced : Session α → Session α
  | done value => done value
  | tell _ rest => rest.silenced
  | ask request resume => ask request fun reply => (resume reply).silenced

def captures (requests : List Request) : List Command := requests.filterMap Request.captured?

@[simp] theorem silenced_done (value : α) : (done value).silenced = done value := rfl

theorem silenced_bind (session : Session α) (next : α → Session β) :
    (session.bind next).silenced = session.silenced.bind fun value => (next value).silenced := by
  induction session with
  | done value => rfl
  | tell notice rest ih => exact ih
  | ask request resume ih => simp only [bind, silenced, ih]

theorem silenced_bind_of_done {session : Session α} {value : α}
    (silent : session.silenced = done value) (next : α → Session β) :
    (session.bind next).silenced = (next value).silenced := by
  rw [silenced_bind, silent]
  rfl

@[simp] theorem captures_append (first second : List Request) :
    captures (first ++ second) = captures first ++ captures second :=
  List.filterMap_append

/-- Silence changes neither the requests nor the result. -/
theorem play_silenced (machine : Machine) (session : Session α) (past : List Request) :
    requests (play machine past session.silenced).1 = requests (play machine past session).1 ∧
      (play machine past session.silenced).2 = (play machine past session).2 := by
  induction session generalizing past with
  | done value => exact ⟨rfl, rfl⟩
  | tell notice rest ih => exact ih past
  | ask request resume ih =>
      obtain ⟨asked, result⟩ := ih (machine past request) (past ++ [request])
      exact ⟨congrArg (request :: ·) asked, result⟩

theorem play_eq_of_silenced_eq {first second : Session α}
    (alike : first.silenced = second.silenced) (machine : Machine) (past : List Request) :
    requests (play machine past first).1 = requests (play machine past second).1 ∧
      (play machine past first).2 = (play machine past second).2 := by
  obtain ⟨firstAsked, firstResult⟩ := play_silenced machine first past
  obtain ⟨secondAsked, secondResult⟩ := play_silenced machine second past
  rw [alike] at firstAsked firstResult
  exact ⟨firstAsked.symm.trans secondAsked, firstResult.symm.trans secondResult⟩

/-- Every child of the session is captured, whatever the replies. -/
inductive CapturesOnly : Session α → Prop
  | done (value : α) : CapturesOnly (done value)
  | tell (notice : Notice) {rest : Session α} (others : CapturesOnly rest) :
      CapturesOnly (tell notice rest)
  | capture (command : Command) {resume : Reply → Session α}
      (others : ∀ reply, CapturesOnly (resume reply)) :
      CapturesOnly (ask (.capture command) resume)

namespace CapturesOnly

theorem bind {session : Session α} (captured : CapturesOnly session) {next : α → Session β}
    (others : ∀ value, CapturesOnly (next value)) : CapturesOnly (session.bind next) := by
  induction captured with
  | done value => exact others value
  | tell notice rest ih => exact .tell notice ih
  | capture command resume ih => exact .capture command ih

/-- The whole course is the same on machines that reply alike to what is captured. -/
theorem play_congr {session : Session α} (captured : CapturesOnly session)
    {first second : Machine} (same : first.SameCaptures second) {past : List Request}
    (before : ∀ request ∈ past, request.captured?.isSome = true) :
    play first past session = play second past session := by
  induction captured generalizing past with
  | done value => rfl
  | tell notice rest ih => simp only [play, ih before]
  | capture command resume ih =>
      have after : ∀ request ∈ past ++ [.capture command], request.captured?.isSome = true := by
        intro request inside
        rcases List.mem_append.mp inside with earlier | here
        · exact before request earlier
        · rw [List.mem_singleton.mp here]
          rfl
      simp only [play, same past command before, ih _ after]

end CapturesOnly

def outline : List Event → List (Notice ⊕ Request)
  | [] => []
  | .told notice :: events => .inl notice :: outline events
  | .asked request _ :: events => .inr request :: outline events

/-- Wherever the session asks for something, it goes on in the same way after two replies that are
alike. -/
inductive Equates (alike : Request → Reply → Reply → Prop) : Session α → Prop
  | done (value : α) : Equates alike (done value)
  | tell (notice : Notice) {rest : Session α} (others : Equates alike rest) :
      Equates alike (tell notice rest)
  | ask (request : Request) {resume : Reply → Session α}
      (same : ∀ first second, alike request first second → resume first = resume second)
      (others : ∀ reply, Equates alike (resume reply)) : Equates alike (ask request resume)

namespace Equates

variable {alike : Request → Reply → Reply → Prop}

theorem bind {session : Session α} (equates : Equates alike session) {next : α → Session β}
    (others : ∀ value, Equates alike (next value)) : Equates alike (session.bind next) := by
  induction equates with
  | done value => exact others value
  | tell notice rest ih => exact .tell notice ih
  | ask request same rest ih =>
      exact .ask request (fun first second like => by rw [same first second like]) ih

/-- A request after which all that is alike is the same. -/
theorem ask_of_eq {request : Request} (strict : ∀ first second, alike request first second →
    first = second) {resume : Reply → Session α} (others : ∀ reply, Equates alike (resume reply)) :
    Equates alike (Session.ask request resume) :=
  .ask request (fun first second like => by rw [strict first second like]) others

theorem play_congr {session : Session α} (equates : Equates alike session)
    {first second : Machine}
    (replies : ∀ past request, alike request (first past request) (second past request))
    (past : List Request) :
    outline (play first past session).1 = outline (play second past session).1 ∧
      (play first past session).2 = (play second past session).2 := by
  induction equates generalizing past with
  | done value => exact ⟨rfl, rfl⟩
  | tell notice rest ih =>
      obtain ⟨course, result⟩ := ih past
      exact ⟨congrArg (Sum.inl notice :: ·) course, result⟩
  | @ask request resume same rest ih =>
      have resumed := same _ _ (replies past request)
      obtain ⟨course, result⟩ := ih (second past request) (past ++ [request])
      rw [play, play, resumed]
      exact ⟨congrArg (Sum.inr request :: ·) course, result⟩

end Equates

end Session

end CompilerFront
