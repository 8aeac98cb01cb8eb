import CompilerFront.Program
import CompilerFront.Proofs.Build.Stages
import CompilerFront.Proofs.Text.Trim

set_option autoImplicit false

namespace CompilerFront

namespace Program

/-- A message always leaves a line on the error stream, and output does unless it is shown as
nothing. -/
theorem shown_eq_nil_iff {notice : Notice} :
    shown notice = [] ↔ ∃ text, notice = .output text [] := by
  have line_ne_nil (text : Text) : line text ≠ [] := by
    rw [line, Text.Utf8.encode_append]
    exact List.append_ne_nil_of_right_ne_nil _ (by decide)
  cases notice with
  | message severity text => simp [shown, line_ne_nil]
  | output text present => cases present <;> simp [shown, line_ne_nil]

end Program

namespace Session

/-- Whether an event is there to be noticed: a request always is, what is told only if it leaves
something on the error stream. -/
def isPerceived : Event → Bool
  | .told notice => !(Program.shown notice).isEmpty
  | .asked _ _ => true

theorem isPerceived_told_iff {notice : Notice} :
    isPerceived (.told notice) = true ↔ ∀ text, notice ≠ .output text [] := by
  rw [isPerceived, Bool.not_eq_true', List.isEmpty_eq_false_iff, Ne, Program.shown_eq_nil_iff,
    not_exists]

/-- A course of events without the output that is shown as nothing. -/
def perceived (events : List Event) : List Event := events.filter isPerceived

theorem perceived_append (first second : List Event) :
    perceived (first ++ second) = perceived first ++ perceived second := List.filter_append ..

theorem perceived_of_all {events : List Event} (all : ∀ event ∈ events, isPerceived event = true) :
    perceived events = events := List.filter_eq_self.mpr all

end Session

namespace Build

open Session

variable (build : Build)

/-- What a child printed on its two streams, decoded, without a stream that is blank. -/
def solidStreams (stdout stderr : List UInt8) : List Text :=
  ([stdout, stderr].map build.platform.decode).filter (!Text.isAllBlank ·)

theorem printed_eq_joinWith (stdout stderr : List UInt8) :
    build.printed stdout stderr =
      Text.joinWith "\n" ((build.solidStreams stdout stderr).map Text.trim) := by
  have kept (text : Text) : (!(Text.trim text).isEmpty) = !Text.isAllBlank text := by
    rw [Bool.not_inj_iff, Bool.eq_iff_iff, List.isEmpty_iff, Text.trim_eq_nil_iff]
  have streams : [stdout, stderr].map (fun bytes => Text.trim (build.platform.decode bytes)) =
      ([stdout, stderr].map build.platform.decode).map Text.trim := by
    rw [List.map_map]
    rfl
  rw [printed, streams, List.filter_map, solidStreams]
  congr 2
  exact List.filter_congr fun text _ => kept text

theorem printed_eq_nil_iff {stdout stderr : List UInt8} :
    build.printed stdout stderr = [] ↔ build.solidStreams stdout stderr = [] := by
  rw [printed_eq_joinWith, Text.joinWith_eq_nil_iff, List.map_eq_nil_iff]
  intro part inside
  obtain ⟨text, among, rfl⟩ := List.mem_map.mp inside
  have solid := (List.mem_filter.mp among).2
  intro empty
  rw [Text.trim_eq_nil_iff.mp empty] at solid
  cases solid

/-- What is shown of a compiler that was started: its streams without the blanks around them, one
below the other, as the formatter presents them, unless there is nothing to show. -/
def shownStreams : Reply → List Event
  | .notStarted _ => []
  | .ended _ stdout stderr =>
      let streams := build.solidStreams stdout stderr
      let text := Text.joinWith "\n" (streams.map Text.trim)
      let shown := build.formatter.presentOutput build.config.colour build.config.level text
      if streams = [] ∨ shown = [] then [] else [.told (.output text shown)]

theorem isPerceived_messageEvent (severity : Severity) (message : Text) :
    isPerceived (build.messageEvent severity message) = true := by
  apply isPerceived_told_iff.mpr
  intro text same
  cases same

theorem isPerceived_endEvent (program : Text) (reply : Reply) :
    isPerceived (build.endEvent program reply) = true := by
  cases reply <;> exact build.isPerceived_messageEvent _ _

theorem perceived_ignoredEvents (operands : List Text) :
    perceived (build.ignoredEvents operands) = build.ignoredEvents operands := by
  apply perceived_of_all
  intro event inside
  obtain ⟨operand, -, rfl⟩ := List.mem_map.mp inside
  exact build.isPerceived_messageEvent _ _

theorem perceived_lexerEvents (runs : List (Path × Reply)) :
    perceived (build.lexerEvents runs) = build.lexerEvents runs := by
  apply perceived_of_all
  intro event inside
  obtain ⟨run, -, rfl⟩ := List.mem_map.mp inside
  rfl

theorem perceived_queryEvents (queries : List (Text × Reply)) :
    perceived (build.queryEvents queries) = build.queryEvents queries := by
  apply perceived_of_all
  intro event inside
  obtain ⟨query, -, rfl⟩ := List.mem_map.mp inside
  rfl

theorem perceived_outputEvents (reply : Reply) :
    perceived (build.outputEvents reply) = build.shownStreams reply := by
  cases reply with
  | notStarted reason => rfl
  | ended outcome stdout stderr =>
      simp only [outputEvents, shownStreams, ← printed_eq_joinWith, ← printed_eq_nil_iff,
        List.isEmpty_iff]
      split
      · rename_i empty
        rw [if_pos (.inl empty)]
        rfl
      · rename_i printed
        by_cases vain : build.formatter.presentOutput build.config.colour build.config.level
            (build.printed stdout stderr) = []
        · rw [if_pos (.inr vain), vain]
          rfl
        · rw [if_neg (not_or.mpr ⟨printed, vain⟩)]
          apply perceived_of_all
          intro event only
          rw [List.mem_singleton.mp only, isPerceived_told_iff]
          intro text same
          injection same with _ nothing
          exact vain nothing

theorem perceived_announcement (command : Command) :
    perceived (build.announcement command) = build.announcement command := by
  unfold announcement
  split
  · exact perceived_of_all (by simp [isPerceived_messageEvent])
  · rfl

theorem perceived_cons_asked (request : Request) (reply : Reply) (events : List Event) :
    perceived (.asked request reply :: events) = .asked request reply :: perceived events := rfl

theorem perceived_compilingEvents (command : Command) (reply : Reply) :
    perceived (build.compilingEvents command reply) =
      build.announcement command ++ .asked (.capture command) reply :: build.shownStreams reply ++
        if reply.succeeded then [build.builtEvent] else [] := by
  have built : perceived (if reply.succeeded then [build.builtEvent] else []) =
      if reply.succeeded then [build.builtEvent] else [] := by
    split
    · exact perceived_of_all (by simp [builtEvent, isPerceived_messageEvent])
    · rfl
  rw [compilingEvents, perceived_append, perceived_append, perceived_announcement,
    perceived_cons_asked, perceived_outputEvents, built]

theorem perceived_followingEvents (following : Option (Command × Reply)) :
    perceived (build.followingEvents following) = build.followingEvents following := by
  rcases following with _ | ⟨command, reply⟩
  · rfl
  · rw [followingEvents, perceived_cons_asked]
    exact congrArg _ (perceived_of_all (by simp [isPerceived_endEvent]))

/-- Whatever the machine answers, this is all that the user gets to see of a build, in order: a
warning for each operand that names no file, before anything is asked; if it comes to the compiler,
its command where that is wanted, what it printed, and on its success the message of it; last, the
end of the child at the terminal if there is one. -/
theorem perceived_run (machine : Machine) (past : List Request) :
    ∃ stages : Stages, stages.Proper build ∧ Answered machine past (stages.exchanges build) ∧
      perceived (play machine past build.run).1 =
        build.config.ignored.map (fun operand =>
          build.messageEvent .warning ("ignoring '" ++ operand ++ "': no such file")) ++
        stages.lexing.map (fun run => .asked (build.lexerRequest run.1) run.2) ++
        stages.queries.map (fun query => .asked (build.queryRequest query.1) query.2) ++
        stages.compiling.toList.flatMap (fun reply =>
          (if build.config.verbose then
            [build.messageEvent .info (stages.compilerCommand build).display] else []) ++
          .asked (.capture (stages.compilerCommand build)) reply :: build.shownStreams reply ++
          if reply.succeeded then
            [build.messageEvent .info ("built " ++ build.config.destination.text)] else []) ++
        stages.following.toList.flatMap fun started =>
          [.asked (.interactive started.1) started.2,
            build.endEvent started.1.program started.2] := by
  obtain ⟨stages, proper, played⟩ := build.play_run machine past
  have answered := play_answered machine build.run past
  rw [played, exchanges_events] at answered
  refine ⟨stages, proper, answered, ?_⟩
  have compiling : perceived
      (stages.compiling.toList.flatMap (build.compilingEvents (stages.compilerCommand build))) =
        stages.compiling.toList.flatMap fun reply =>
          build.announcement (stages.compilerCommand build) ++
            .asked (.capture (stages.compilerCommand build)) reply :: build.shownStreams reply ++
              if reply.succeeded then [build.builtEvent] else [] := by
    cases stages.compiling with
    | none => rfl
    | some reply =>
        rw [Option.toList_some, List.flatMap_singleton, List.flatMap_singleton,
          perceived_compilingEvents]
  have following : build.followingEvents stages.following =
      stages.following.toList.flatMap fun started =>
        [.asked (.interactive started.1) started.2,
          build.endEvent started.1.program started.2] := by
    rcases stages.following with _ | ⟨command, reply⟩ <;> rfl
  rw [played, Stages.events, perceived_append, perceived_append, perceived_append,
    perceived_append, perceived_ignoredEvents, perceived_lexerEvents, perceived_queryEvents,
    compiling, perceived_followingEvents, following]
  simp only [ignoredEvents, lexerEvents, queryEvents, announcement, builtEvent]

end Build

end CompilerFront
