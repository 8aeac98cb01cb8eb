import CompilerFront.Proofs.Build.Stages
import CompilerFront.Proofs.Session

set_option autoImplicit false

namespace CompilerFront.Build

open Session

variable (build : Build)

/-- Whether a request is one of the package queries that the configuration asks for. -/
def IsPackageQuery (request : Request) : Prop :=
  ∃ package ∈ packages build.config, request = build.queryRequest package

/-- Replies to a package query that are alike: the same; a failure and a success with nothing but
blanks on its output; two successes with the same words on their outputs. -/
inductive AlikeLookups (platform : Platform) : Reply → Reply → Prop
  | refl (reply : Reply) : AlikeLookups platform reply reply
  | failed {reply : Reply} {stdout stderr : List UInt8} (failure : reply.succeeded = false)
      (blank : Text.isAllBlank (platform.decode stdout) = true) :
      AlikeLookups platform reply (.ended .success stdout stderr)
  | printed {first second firstErrors secondErrors : List UInt8}
      (same : Text.words (platform.decode first) = Text.words (platform.decode second)) :
      AlikeLookups platform (.ended .success first firstErrors) (.ended .success second secondErrors)

theorem flagsOfReply_of_failed {platform : Platform} {reply : Reply}
    (failure : reply.succeeded = false) : flagsOfReply platform reply = [] := by
  cases reply with
  | notStarted reason => rfl
  | ended outcome stdout stderr =>
      rw [Reply.succeeded_ended] at failure
      apply flagsOfReply_of_not_success
      rintro rfl
      cases failure

theorem AlikeLookups.flags {platform : Platform} {first second : Reply}
    (alike : AlikeLookups platform first second) :
    flagsOfReply platform first = flagsOfReply platform second := by
  cases alike with
  | refl => rfl
  | failed failure blank =>
      rw [flagsOfReply_of_failed failure]
      exact (Text.words_eq_nil_of_isAllBlank blank).symm
  | printed same => exact same

/-- Replies that the build cannot tell apart. -/
def SameFlags (request : Request) (first second : Reply) : Prop :=
  first = second ∨ build.IsPackageQuery request ∧
    flagsOfReply build.platform first = flagsOfReply build.platform second

theorem mem_packages {config : Config} {package : Text} (inside : package ∈ packages config) :
    package = Command.gtkPackage ∨ package = Command.gtkmmPackage := by
  simp only [packages, List.mem_append] at inside
  rcases inside with inside | inside
  · split at inside
    · exact .inl (List.mem_singleton.mp inside)
    · cases inside
  · split at inside
    · exact .inr (List.mem_singleton.mp inside)
    · cases inside

/-- A command that names an output file is no package query. -/
theorem not_isPackageQuery_of_mem {command : Command} (names : "-o".toList ∈ command.arguments) :
    ¬ build.IsPackageQuery (.capture command) := by
  rintro ⟨package, inside, same⟩
  have arguments : command.arguments = ["--cflags".toList, "--libs".toList, package] :=
    congrArg (fun request => request.command.arguments) same
  rw [arguments] at names
  rcases mem_packages inside with rfl | rfl <;> revert names <;> decide

theorem eq_of_sameFlags {request : Request} (other : ¬ build.IsPackageQuery request) :
    ∀ first second, build.SameFlags request first second → first = second := by
  rintro first second (same | ⟨lookup, -⟩)
  · exact same
  · exact absurd lookup other

section

variable {build}

/-- A session goes on in the same way after replies with the same flags. -/
abbrev EquatesFlags (build : Build) {α : Type} : Session α → Prop := Equates build.SameFlags

theorem equates_say (severity : Severity) (message : Text) :
    build.EquatesFlags (build.say severity message) := .tell _ (.done ())

theorem equates_warnIgnored (operands : List Text) :
    build.EquatesFlags (build.warnIgnored operands) := by
  induction operands with
  | nil => exact .done ()
  | cons operand rest ih => exact (equates_say _ _).bind fun _ => ih

theorem equates_generateAll (inputs sources : List Path) :
    build.EquatesFlags (build.generateAll sources inputs) := by
  induction inputs generalizing sources with
  | nil => exact .done _
  | cons input rest ih =>
      rw [generateAll_cons]
      have other : ¬ build.IsPackageQuery
          (.capture (Command.lexer build.toolchain input (generatedFile input))) :=
        build.not_isPackageQuery_of_mem List.mem_cons_self
      refine .ask_of_eq (build.eq_of_sameFlags other) fun reply => ?_
      cases build.generated input reply with
      | error error => exact .done _
      | ok _ => exact ih _

theorem equates_askPackages (asked : List Text) :
    build.EquatesFlags (build.askPackages asked) := by
  induction asked with
  | nil => exact .done []
  | cons package rest ih =>
      have first : build.EquatesFlags (build.askPackage package) := by
        refine .ask (build.queryRequest package) (fun first second alike => ?_) fun _ => .done _
        rcases alike with rfl | ⟨-, flags⟩
        · rfl
        · exact congrArg Session.done flags
      exact first.bind fun flags => ih.bind fun more => .done _

theorem equates_announce (command : Command) : build.EquatesFlags (build.announce command) := by
  unfold announce
  split
  · exact equates_say _ _
  · exact .done ()

theorem equates_compile {command : Command} (names : "-o".toList ∈ command.arguments) :
    build.EquatesFlags (build.compile command) := by
  refine .ask_of_eq (build.eq_of_sameFlags (build.not_isPackageQuery_of_mem names)) fun reply => ?_
  cases reply with
  | notStarted reason => exact .done _
  | ended outcome stdout stderr =>
      have shown : build.EquatesFlags (build.showPrinted stdout stderr) := by
        simp only [showPrinted]
        split
        · exact .done ()
        · exact .tell _ (.done ())
      exact shown.bind fun _ => .done _

theorem equates_tellEnd (program : Text) (reply : Reply) :
    build.EquatesFlags (build.tellEnd program reply) := by
  cases reply <;> exact equates_say _ _

theorem equates_followUp : build.EquatesFlags build.followUp := by
  unfold followUp
  split
  · exact .done ()
  · rename_i command _
    have other : ¬ build.IsPackageQuery (.interactive command) := by
      rintro ⟨package, -, same⟩
      cases same
    exact .ask_of_eq (build.eq_of_sameFlags other) fun reply => equates_tellEnd _ _

theorem equates_completion {command : Command} (names : "-o".toList ∈ command.arguments) :
    build.EquatesFlags (build.completion command) := by
  refine (equates_announce command).bind fun _ => (equates_compile names).bind fun compiled => ?_
  cases compiled with
  | error error => exact .done _
  | ok _ => exact (equates_say _ _).bind fun _ => equates_followUp.bind fun _ => .done _

theorem equates_finish (sources : List Path) : build.EquatesFlags (build.finish sources) := by
  rw [finish_eq_bind]
  refine (equates_askPackages _).bind fun flags => equates_completion ?_
  simp [Command.compiler, Command.compilerFiles, Command.outputArguments]

theorem equates_run : build.EquatesFlags build.run := by
  refine (equates_warnIgnored _).bind fun _ => (equates_generateAll _ _).bind fun lexed => ?_
  cases lexed with
  | error error => exact .done _
  | ok sources => exact equates_finish sources

end

/-- The words on the output of the query for a package, if it was made and succeeded. -/
def wordsOfQuery (platform : Platform) (queries : List (Text × Reply)) (package : Text) :
    List Text :=
  match queries.lookup package with
  | some (.ended .success stdout _) => Text.words (platform.decode stdout)
  | _ => []

theorem wordsOfQuery_cons_self (platform : Platform) (package : Text) (reply : Reply)
    (queries : List (Text × Reply)) :
    wordsOfQuery platform ((package, reply) :: queries) package = flagsOfReply platform reply := by
  rw [wordsOfQuery, List.lookup_cons_self]
  cases reply with
  | notStarted reason => rfl
  | ended outcome stdout stderr => cases outcome <;> rfl

theorem wordsOfQuery_cons_of_ne (platform : Platform) {package other : Text}
    (different : package ≠ other) (reply : Reply) (queries : List (Text × Reply)) :
    wordsOfQuery platform ((other, reply) :: queries) package =
      wordsOfQuery platform queries package := by
  have absent : (package == other) = false := by simpa using different
  rw [wordsOfQuery, List.lookup_cons, absent, wordsOfQuery]

theorem gtkPackage_ne_gtkmmPackage : Command.gtkPackage ≠ Command.gtkmmPackage := by decide

/-- The flags of the queries in a build are the words of the one for gtk, then those of the one for
gtkmm. -/
theorem flagsOfQueries_eq_words {queries : List (Text × Reply)}
    (asked : queries.map Prod.fst = packages build.config ∨ queries = []) :
    build.flagsOfQueries queries =
      wordsOfQuery build.platform queries Command.gtkPackage ++
        wordsOfQuery build.platform queries Command.gtkmmPackage := by
  rcases asked with asked | rfl
  · have gtkOnly := wordsOfQuery_cons_of_ne build.platform gtkPackage_ne_gtkmmPackage
    have gtkmmOnly := wordsOfQuery_cons_of_ne build.platform gtkPackage_ne_gtkmmPackage.symm
    have unasked (package : Text) : wordsOfQuery build.platform [] package = [] := rfl
    unfold packages at asked
    cases gtk : build.config.gtk <;> cases gtkmm : build.config.gtkmm <;>
      simp only [gtk, gtkmm, Bool.false_eq_true, ↓reduceIte, List.append_nil, List.nil_append,
        List.singleton_append, List.map_eq_nil_iff, List.map_eq_cons_iff] at asked
    · rw [asked]
      rfl
    · obtain ⟨⟨_, reply⟩, _, rfl, rfl, rfl⟩ := asked
      simp [flagsOfQueries, gtkOnly, unasked, wordsOfQuery_cons_self]
    · obtain ⟨⟨_, reply⟩, _, rfl, rfl, rfl⟩ := asked
      simp [flagsOfQueries, gtkmmOnly, unasked, wordsOfQuery_cons_self]
    · obtain ⟨⟨_, reply⟩, _, rfl, rfl, ⟨_, other⟩, _, rfl, rfl, rfl⟩ := asked
      simp [flagsOfQueries, gtkmmOnly, wordsOfQuery_cons_self]
  · rfl

/-- A build on two machines that differ only in their replies to package queries, and there only in
what is printed by a query that fails or around the words of one that succeeds, takes the same
course, but for these replies, and has the same result. The compiler gets the words as one block,
those of gtk in front, right before the output, the sources and the libraries. -/
theorem run_of_alikeLookups {first second : Machine}
    (others : ∀ past request, ¬ build.IsPackageQuery request →
      second past request = first past request)
    (lookups : ∀ past request, build.IsPackageQuery request →
      AlikeLookups build.platform (first past request) (second past request))
    (past : List Request) :
    outline (play second past build.run).1 = outline (play first past build.run).1 ∧
      (play second past build.run).2 = (play first past build.run).2 ∧
      ∃ stages : Stages, stages.Proper build ∧
        Session.exchanges (play first past build.run).1 = stages.exchanges build ∧
        Answered first past (stages.exchanges build) ∧
        (stages.compilerCommand build).arguments =
          Command.compilerFlags build.config ++
            (wordsOfQuery build.platform stages.queries Command.gtkPackage ++
              wordsOfQuery build.platform stages.queries Command.gtkmmPackage) ++
            ("-o".toList :: build.config.destination.text ::
              (compilerSources build.config.sources).map (·.text) ++
                build.config.libraries.flatMap fun library => ["-l".toList, library]) := by
  have alike : ∀ past request,
      build.SameFlags request (first past request) (second past request) := by
    intro past request
    by_cases lookup : build.IsPackageQuery request
    · exact .inr ⟨lookup, (lookups past request lookup).flags⟩
    · exact .inl (others past request lookup).symm
  obtain ⟨course, result⟩ := equates_run.play_congr alike past
  obtain ⟨stages, proper, played⟩ := build.play_run first past
  have asked : stages.queries.map Prod.fst = packages build.config ∨ stages.queries = [] := by
    have queries := proper.queries
    split at queries
    · exact .inl queries
    · exact .inr (List.map_eq_nil_iff.mp queries)
  have exchanged : Session.exchanges (play first past build.run).1 = stages.exchanges build := by
    rw [played, exchanges_events]
  refine ⟨course.symm, result.symm, stages, proper, exchanged, ?_, ?_⟩
  · rw [← exchanged]
    exact play_answered first build.run past
  · rw [Stages.compilerCommand, Command.compiler, build.flagsOfQueries_eq_words asked]
    rfl

def ofBothPackages : Build where
  config :=
    { Config.blank with
      sources := [⟨"a.c"⟩], destination := ⟨"a"⟩, verbose := true, gtk := true, gtkmm := true }
  toolchain := .standard
  platform := .unix
  formatter := .plain

/-- A machine with given replies to the two package queries; all else succeeds in silence. -/
def answeringQueries (gtk gtkmm : Reply) : Machine := fun _ request =>
  if request = ofBothPackages.queryRequest Command.gtkPackage then gtk
  else if request = ofBothPackages.queryRequest Command.gtkmmPackage then gtkmm
  else .ended .success [] []

/-- A query for gtk that fails with half of its output, and the words for gtkmm with blanks around
them. -/
def halfPrinted : Machine :=
  answeringQueries (.ended (.failed 1) (Text.Utf8.encode "-lgtk") (Text.Utf8.encode "No such package"))
    (.ended .success (Text.Utf8.encode " -I/mm\t-lmm \n") [])

/-- The same with a query for gtk that prints an empty line, and the bare words for gtkmm. -/
def barePrinted : Machine :=
  answeringQueries (.ended .success (Text.Utf8.encode "\n") [])
    (.ended .success (Text.Utf8.encode "-I/mm -lmm") (Text.Utf8.encode "deprecated"))

theorem run_of_halfPrinted :
    (∀ past request, ¬ ofBothPackages.IsPackageQuery request →
      barePrinted past request = halfPrinted past request) ∧
    (∀ past request, ofBothPackages.IsPackageQuery request →
      AlikeLookups ofBothPackages.platform (halfPrinted past request)
        (barePrinted past request)) ∧
    outline (play barePrinted [] ofBothPackages.run).1 =
      outline (play halfPrinted [] ofBothPackages.run).1 ∧
    .capture ⟨"cc", ["-I/mm", "-lmm", "-o", "a", "a.c"]⟩ ∈
      requests (play halfPrinted [] ofBothPackages.run).1 := by
  have others : ∀ past request, ¬ ofBothPackages.IsPackageQuery request →
      barePrinted past request = halfPrinted past request := by
    intro past request other
    have notGtk : request ≠ ofBothPackages.queryRequest Command.gtkPackage := by
      rintro rfl
      exact other ⟨_, by decide, rfl⟩
    have notGtkmm : request ≠ ofBothPackages.queryRequest Command.gtkmmPackage := by
      rintro rfl
      exact other ⟨_, by decide, rfl⟩
    simp only [barePrinted, halfPrinted, answeringQueries, if_neg notGtk, if_neg notGtkmm]
  have lookups : ∀ past request, ofBothPackages.IsPackageQuery request →
      AlikeLookups ofBothPackages.platform (halfPrinted past request)
        (barePrinted past request) := by
    rintro past request ⟨package, inside, rfl⟩
    rcases mem_packages inside with rfl | rfl
    · exact .failed rfl (by decide +kernel)
    · exact .printed (by decide +kernel)
  obtain ⟨course, -⟩ := ofBothPackages.run_of_alikeLookups others lookups []
  exact ⟨others, lookups, course, by decide +kernel⟩

end CompilerFront.Build
