import CompilerFront.Proofs.Path.NewExtension
import CompilerFront.Task

set_option autoImplicit false

namespace CompilerFront

namespace Options

/-- A configuration has the mode that the options choose, and its sources are the operands that
exist. There is a first source, beside which the result goes if the options do not say where. -/
structure Configured (options : Options) (exists? : Path → Bool) (platform : Platform)
    (config : Config) : Prop where
  mode : options.mode = .ok config.mode
  sources : config.sources = (options.operands.filter fun operand => exists? ⟨operand⟩).map Path.mk
  destination : ∃ first others, config.sources = first :: others ∧
    config.destination = config.mode.destination platform options.output first

theorem configured_of_configure {options : Options} {exists? : Path → Bool} {platform : Platform}
    {programArguments : List Text} {config : Config}
    (made : options.configure exists? platform programArguments = .ok config) :
    options.Configured exists? platform config := by
  unfold configure at made
  cases chosen : options.mode with
  | error error =>
      rw [chosen] at made
      cases made
  | ok mode =>
      simp only [chosen, bind, Except.bind] at made
      split at made
      · cases made
      · rename_i first others found
        cases made
        exact ⟨chosen, rfl, first, others, found, rfl⟩

end Options

theorem Task.configured_of_build {exists? : Path → Bool} {platform : Platform}
    {arguments : List Text} {config : Config} {options : Options}
    (task : Task.ofArguments exists? platform arguments = .ok (.build config))
    (read : Options.parse ((Options.splitArguments arguments).1.drop 1) = .ok options) :
    options.Configured exists? platform config := by
  simp only [Task.ofArguments, read] at task
  split at task
  · cases task
  · split at task
    · cases task
    · rename_i made
      cases task
      exact Options.configured_of_configure made

theorem Mode.separator_not_mem_extension (mode : Mode) (platform : Platform) :
    '/' ∉ mode.extension platform := by
  cases mode <;> cases platform <;> decide

/-- Without a destination on the command line, the result of a build is written to the place of a
source in three cases and in no others: the first source has no file name; it has the extension of
the mode already, or none where the mode has none; another source lies beside the first one under
the name that the result gets. -/
theorem Task.destination_same_source_iff {exists? : Path → Bool} {platform : Platform}
    {arguments : List Text} {config : Config} {options : Options}
    (task : Task.ofArguments exists? platform arguments = .ok (.build config))
    (read : Options.parse ((Options.splitArguments arguments).1.drop 1) = .ok options)
    (unasked : options.output = none) :
    ∃ first others, config.sources = first :: others ∧
      ((∃ source ∈ config.sources, config.destination.same source = true) ↔
        first.fileName? = none ∨
          (¬ first.LosesName ∧ first.extension? =
            if config.mode.extension platform = [] then none
            else some (config.mode.extension platform)) ∨
          ∃ source ∈ others, source.components =
            Path.componentsIn first.directory
              (first.pieceUnder (config.mode.extension platform))) := by
  obtain ⟨first, others, sources_eq, destination_eq⟩ :=
    (Task.configured_of_build task read).destination
  have separated := Mode.separator_not_mem_extension config.mode platform
  rw [unasked, Mode.destination_none] at destination_eq
  refine ⟨first, others, sources_eq, ?_⟩
  simp only [sources_eq, destination_eq, List.mem_cons, exists_eq_or_imp,
    Path.withExtension_same_iff separated, or_assoc]
  cases named : first.fileName? with
  | none => simp
  | some name =>
      have renamed : ∀ source : Path,
          (first.withExtension (config.mode.extension platform)).same source = true ↔
            source.components = Path.componentsIn first.directory
              (first.pieceUnder (config.mode.extension platform)) := by
        intro source
        rw [Path.same_iff, Path.components_withExtension named separated, eq_comm]
      simp only [renamed]

/-- Two sources and what was made of the first one before. -/
def besideArguments : List Text := ["ccwrap", "d/main.c", "x.c", "d//main"]

def besideConfig : Config :=
  { Config.blank with
    language := .c, sources := [⟨"d/main.c"⟩, ⟨"x.c"⟩, ⟨"d//main"⟩], destination := ⟨"d/main"⟩,
    warnings := true, colour := true }

theorem Task.destination_besideConfig :
    Task.ofArguments (fun _ => true) .unix besideArguments = .ok (.build besideConfig) ∧
      Options.parse ((Options.splitArguments besideArguments).1.drop 1) =
        .ok { Options.nothing with operands := besideArguments.drop 1 } ∧
      ∃ source ∈ besideConfig.sources, besideConfig.destination.same source = true := by
  have task : Task.ofArguments (fun _ => true) .unix besideArguments =
      .ok (.build besideConfig) := rfl
  have read : Options.parse ((Options.splitArguments besideArguments).1.drop 1) =
      .ok { Options.nothing with operands := besideArguments.drop 1 } := rfl
  refine ⟨task, read, ?_⟩
  obtain ⟨first, others, sources_eq, decided⟩ := Task.destination_same_source_iff task read rfl
  cases sources_eq
  refine decided.mpr (.inr (.inr ⟨⟨"d//main"⟩, by decide, by decide⟩))

/-- A source without an extension is linked to a program of its own name, and the compiler is told to
write the one over the other. -/
theorem Task.destination_extensionless :
    ∃ config, Task.ofArguments (fun path => path = ⟨"prog"⟩) .unix ["ccwrap", "-x", "c", "prog"] =
        .ok (.build config) ∧
      (Options.parse ["-x", "c", "prog"]).toOption.map (·.output) = some none ∧
      config.sources = [⟨"prog"⟩] ∧ config.destination = ⟨"prog"⟩ ∧
      ¬ ∀ source ∈ config.sources, config.destination.same source = false := by
  refine ⟨_, rfl, rfl, rfl, rfl, ?_⟩
  decide

end CompilerFront
