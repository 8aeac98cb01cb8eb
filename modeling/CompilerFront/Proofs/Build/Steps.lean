import CompilerFront.Build
import CompilerFront.Proofs.Build.LexerRuns

set_option autoImplicit false

namespace CompilerFront.Build

open Session

variable (build : Build)

def messageEvent (severity : Severity) (message : Text) : Event :=
  .told (.message severity (build.formatter.presentMessage severity message))

def ignoredEvents (operands : List Text) : List Event :=
  operands.map fun operand =>
    build.messageEvent .warning ("ignoring '" ++ operand ++ "': no such file")

def queryRequest (package : Text) : Request := .capture (.packageQuery build.toolchain package)

def queryEvents (queries : List (Text × Reply)) : List Event :=
  queries.map fun query => .asked (build.queryRequest query.1) query.2

/-- The flags that come of package queries. -/
def flagsOfQueries (queries : List (Text × Reply)) : List Text :=
  queries.flatMap fun query => flagsOfReply build.platform query.2

def announcement (command : Command) : List Event :=
  if build.config.verbose then [build.messageEvent .info command.display] else []

/-- What the compiler printed, as it is shown. -/
def outputEvents : Reply → List Event
  | .notStarted _ => []
  | .ended _ stdout stderr =>
      let text := build.printed stdout stderr
      if text.isEmpty then []
      else
        [.told (.output text
          (build.formatter.presentOutput build.config.colour build.config.level text))]

def compilerError (program : Text) : Reply → BuildError
  | .notStarted reason => .notStarted program reason
  | .ended outcome _ _ => .compilation program outcome

def compilerResult (program : Text) (reply : Reply) : Except BuildError Unit :=
  if reply.succeeded then .ok () else .error (compilerError program reply)

def builtEvent : Event :=
  build.messageEvent .info ("built " ++ build.config.destination.text)

def endEvent (program : Text) : Reply → Event
  | .notStarted reason => build.messageEvent .error (BuildError.notStartedText program reason)
  | .ended outcome _ _ =>
      build.messageEvent outcome.severity (program ++ " " ++ outcome.describe)

/-- The compiler is announced and run, its output shown, and its success told. -/
def compilingEvents (command : Command) (reply : Reply) : List Event :=
  build.announcement command ++ .asked (.capture command) reply :: build.outputEvents reply ++
    if reply.succeeded then [build.builtEvent] else []

def followingEvents : Option (Command × Reply) → List Event
  | none => []
  | some (command, reply) =>
      [.asked (.interactive command) reply, build.endEvent command.program reply]

theorem exchanges_ignoredEvents (operands : List Text) :
    exchanges (build.ignoredEvents operands) = [] := by
  induction operands with
  | nil => rfl
  | cons operand rest ih => exact ih

theorem exchanges_queryEvents (queries : List (Text × Reply)) :
    exchanges (build.queryEvents queries) =
      queries.map fun query => (build.queryRequest query.1, query.2) := by
  induction queries with
  | nil => rfl
  | cons query rest ih => exact congrArg ((build.queryRequest query.1, query.2) :: ·) ih

/-- Whatever is told around it, the compiler run is the only request. -/
theorem exchanges_compilingEvents (command : Command) (reply : Reply) :
    exchanges (build.compilingEvents command reply) = [(.capture command, reply)] := by
  have announced : exchanges (build.announcement command) = [] := by
    unfold announcement
    split <;> rfl
  have shown : exchanges (build.outputEvents reply) = [] := by
    cases reply with
    | notStarted reason => rfl
    | ended outcome stdout stderr =>
        simp only [outputEvents]
        split <;> rfl
  have built : exchanges (if reply.succeeded then [build.builtEvent] else []) = [] := by
    split <;> rfl
  simp only [compilingEvents, exchanges_append, announced, exchanges, shown, built,
    List.nil_append, List.append_nil]

theorem exchanges_followingEvents (following : Option (Command × Reply)) :
    exchanges (build.followingEvents following) =
      following.toList.map fun started => (.interactive started.1, started.2) := by
  rcases following with _ | ⟨command, reply⟩
  · rfl
  · cases reply <;> rfl

variable (machine : Machine) (past : List Request)

theorem play_say (severity : Severity) (message : Text) :
    play machine past (build.say severity message) =
      ([build.messageEvent severity message], ()) := rfl

theorem play_warnIgnored (operands : List Text) :
    play machine past (build.warnIgnored operands) = (build.ignoredEvents operands, ()) := by
  induction operands generalizing past with
  | nil => rfl
  | cons operand rest ih =>
      rw [warnIgnored, bind_eq_bind, play_bind_of_play (build.play_say machine past _ _), ih]
      rfl

theorem play_askPackages (packages : List Text) :
    ∃ queries : List (Text × Reply), queries.map Prod.fst = packages ∧
      play machine past (build.askPackages packages) =
        (build.queryEvents queries, build.flagsOfQueries queries) := by
  induction packages generalizing past with
  | nil => exact ⟨[], rfl, rfl⟩
  | cons package rest ih =>
      obtain ⟨queries, asked, played⟩ := ih (past ++ [build.queryRequest package])
      have first : play machine past (build.askPackage package) =
          ([.asked (build.queryRequest package) (machine past (build.queryRequest package))],
            flagsOfReply build.platform (machine past (build.queryRequest package))) := rfl
      refine ⟨(package, machine past (build.queryRequest package)) :: queries, ?_, ?_⟩
      · rw [List.map_cons, asked]
      · rw [askPackages, bind_eq_bind, play_bind_of_play first, bind_eq_bind]
        have after : past ++ requests [Event.asked (build.queryRequest package)
            (machine past (build.queryRequest package))] =
              past ++ [build.queryRequest package] := rfl
        rw [after, play_bind_of_play played]
        simp [pure_eq_done, queryEvents, flagsOfQueries]

theorem play_compile (command : Command) :
    ∃ reply, play machine past (build.compile command) =
      (.asked (.capture command) reply :: build.outputEvents reply,
        compilerResult command.program reply) := by
  refine ⟨machine past (.capture command), ?_⟩
  have asked : play machine past (Session.request (.capture command)) =
      ([.asked (.capture command) (machine past (.capture command))],
        machine past (.capture command)) := rfl
  rw [compile, bind_eq_bind, play_bind_of_play asked]
  cases machine past (.capture command) with
  | notStarted reason => rfl
  | ended outcome stdout stderr =>
      have shown (past : List Request) : play machine past (build.showPrinted stdout stderr) =
          (build.outputEvents (.ended outcome stdout stderr), ()) := by
        simp only [showPrinted, outputEvents]
        split <;> rfl
      simp only [bind_eq_bind, play_bind_of_play (shown _), pure_eq_done, play_done,
        List.append_nil, List.singleton_append, compilerResult, Reply.succeeded_ended]
      cases outcome.succeeded <;> rfl

theorem play_announce (command : Command) :
    play machine past (build.announce command) = (build.announcement command, ()) := by
  simp only [announce, announcement]
  split <;> rfl

theorem play_tellEnd (program : Text) (reply : Reply) :
    play machine past (build.tellEnd program reply) = ([build.endEvent program reply], ()) := by
  cases reply <;> rfl

theorem play_followUp :
    ∃ following : Option (Command × Reply),
      following.map Prod.fst = Command.followUp? build.toolchain build.platform build.config ∧
      play machine past build.followUp = (build.followingEvents following, ()) := by
  cases chosen : Command.followUp? build.toolchain build.platform build.config with
  | none =>
      refine ⟨none, rfl, ?_⟩
      simp [followUp, chosen, pure_eq_done, followingEvents]
  | some command =>
      have asked : play machine past (Session.request (.interactive command)) =
          ([.asked (.interactive command) (machine past (.interactive command))],
            machine past (.interactive command)) := rfl
      refine ⟨some (command, machine past (.interactive command)), rfl, ?_⟩
      simp only [followUp, chosen, bind_eq_bind, play_bind_of_play asked, play_tellEnd,
        followingEvents, List.singleton_append]

/-- What a build does once the flags of the packages are known. -/
def completion (command : Command) : Session (Except BuildError Unit) :=
  (build.announce command).bind fun _ =>
    (build.compile command).bind fun
      | .error error => .done (.error error)
      | .ok () =>
          (build.say .info ("built " ++ build.config.destination.text)).bind fun _ =>
            build.followUp.bind fun _ => .done (.ok ())

theorem finish_eq_bind (sources : List Path) :
    build.finish sources = (build.askPackages (packages build.config)).bind fun flags =>
      build.completion (Command.compiler build.toolchain build.config sources flags) := rfl

theorem play_completion (command : Command) :
    ∃ reply : Reply, ∃ following : Option (Command × Reply),
      (following.map Prod.fst =
        if reply.succeeded then Command.followUp? build.toolchain build.platform build.config
        else none) ∧
      play machine past (build.completion command) =
        (build.compilingEvents command reply ++ build.followingEvents following,
          compilerResult command.program reply) := by
  have announced := build.play_announce machine past command
  obtain ⟨reply, compiled⟩ :=
    build.play_compile machine (past ++ requests (build.announcement command)) command
  refine ⟨reply, ?_⟩
  rw [completion, play_bind_of_play announced, play_bind_of_play compiled]
  cases success : reply.succeeded with
  | false =>
      refine ⟨none, rfl, ?_⟩
      simp [compilerResult, compilingEvents, followingEvents, success]
  | true =>
      have built (past : List Request) :
          play machine past (build.say .info ("built " ++ build.config.destination.text)) =
            ([build.builtEvent], ()) := rfl
      simp only [compilerResult, success, ↓reduceIte, play_bind_of_play (built _)]
      obtain ⟨following, chosen, played⟩ := build.play_followUp machine
        (past ++ requests (build.announcement command) ++
          requests (.asked (.capture command) reply :: build.outputEvents reply) ++
            requests [build.builtEvent])
      refine ⟨following, chosen, ?_⟩
      simp only [play_bind_of_play played, play_done]
      simp [compilingEvents, success]

end CompilerFront.Build
