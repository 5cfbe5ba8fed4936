import HookEvents.Command.Run
import HookEvents.Proofs.Command.Arguments
import HookEvents.Proofs.Workspace.Frame
import HookEvents.Proofs.Workspace.SecondPass

namespace HookEvents

open FileSystem Text

namespace Command

def isReadOnly : Command → Bool
  | .scan _ | .configShow _ => true
  | .types options => options.exportTo.isNone
  | .generate options => options.dryRun
  | .configInit _ => false

theorem files_run_of_error {surroundings : Surroundings} {command : Command} {fault : ConfigFault}
    (h : Config.loadFor surroundings (command.rootIn surroundings) = .error fault) :
    (run surroundings command).files = surroundings.files := by
  delta run
  rw [h]
  rfl

theorem files_run_of_ok {surroundings : Surroundings} {command : Command} {config : Config}
    (h : Config.loadFor surroundings (command.rootIn surroundings) = .ok config) :
    (run surroundings command).files = (runWith surroundings config command).files := by
  delta run
  rw [h]

theorem files_runGenerate_of_error {surroundings : Surroundings} {root : String} {config : Config}
    {options : GenerateOptions} {fault : ProjectFault}
    (h : (Project.generate surroundings root config options.types).result = .error fault) :
    (runGenerate surroundings root config options).files = surroundings.files := by
  unfold runGenerate
  dsimp only
  rw [h]
  rfl

theorem files_runGenerate_of_ok {surroundings : Surroundings} {root : String} {config : Config}
    {options : GenerateOptions} {project : Project} {generation : Generation}
    (h : (Project.generate surroundings root config options.types).result =
      .ok (project, generation)) :
    (runGenerate surroundings root config options).files =
      if options.dryRun then surroundings.files
      else (GeneratedUnit.writeAll surroundings (options.out.getD (config.outputDirectory root))
        generation.units config.output.prune).files := by
  unfold runGenerate
  dsimp only
  rw [h]
  dsimp only
  split
  · rfl
  · split <;> rfl

theorem files_runWith_of_isReadOnly (surroundings : Surroundings) (config : Config)
    {command : Command} (h : command.isReadOnly = true) :
    (runWith surroundings config command).files = surroundings.files := by
  cases command with
  | generate options =>
    change (runGenerate surroundings _ config options).files = surroundings.files
    cases hresult : (Project.generate surroundings ((generate options).rootIn surroundings) config
        options.types).result with
    | error fault => exact files_runGenerate_of_error hresult
    | ok result =>
      rw [files_runGenerate_of_ok hresult]
      exact if_pos h
  | scan options =>
    change (runScan surroundings _ config options).files = surroundings.files
    unfold runScan
    dsimp only
    split <;> rfl
  | types options =>
    change (runTypes surroundings _ config options).files = surroundings.files
    unfold runTypes
    dsimp only
    rw [Option.isNone_iff_eq_none.mp h]
    split <;> rfl
  | configShow path => rfl
  | configInit options => exact absurd h (by simp [isReadOnly])

theorem files_run_of_isReadOnly (surroundings : Surroundings) {command : Command}
    (h : command.isReadOnly = true) : (run surroundings command).files = surroundings.files := by
  cases hconfig : Config.loadFor surroundings (command.rootIn surroundings) with
  | error fault => exact files_run_of_error hconfig
  | ok config => rw [files_run_of_ok hconfig, files_runWith_of_isReadOnly surroundings config h]

end Command

def Invocation.isReadOnly : Invocation → Bool
  | .run command => command.isReadOnly
  | .help | .version | .bad => true

theorem files_runArguments_of_isReadOnly (surroundings : Surroundings) {arguments : List String}
    (h : (Arguments.parse arguments).isReadOnly = true) :
    (runArguments surroundings arguments).files = surroundings.files := by
  unfold runArguments
  cases hparse : Arguments.parse arguments with
  | run command =>
    rw [hparse] at h
    exact command.files_run_of_isReadOnly surroundings h
  | help => rfl
  | version => rfl
  | bad => rfl

namespace Arguments

/-- The command lines of the commands that only look. Behind `--` every argument is a path. -/
inductive LooksOnly : List String → Prop
  | scan (rest : List String) : LooksOnly ("scan" :: rest)
  | types {rest : List String}
    (h : ∀ argument ∈ beforeEnd rest, startsWith "--export" argument = false) :
    LooksOnly ("types" :: rest)
  | configShow (rest : List String) : LooksOnly ("config" :: "show" :: rest)
  | dryRun {rest : List String} (h : "--dry-run" ∈ beforeEnd rest) :
    LooksOnly ("generate" :: rest)

theorem isReadOnly_readCommand {forms : List OptionForm} {arguments : List String}
    {make : Given → Command}
    (h : ∀ given, read forms (arguments.length + 1) {} arguments = .done given →
      (make given).isReadOnly = true) : (readCommand forms arguments make).isReadOnly = true := by
  unfold readCommand
  cases hread : read forms (arguments.length + 1) {} arguments with
  | done given => exact h given hread
  | help => rfl
  | bad => rfl

theorem LooksOnly.isReadOnly {arguments : List String} (h : LooksOnly arguments) :
    (parse arguments).isReadOnly = true := by
  cases h with
  | scan rest => exact isReadOnly_readCommand fun _ _ => rfl
  | configShow rest => exact isReadOnly_readCommand fun _ _ => rfl
  | types h =>
    refine isReadOnly_readCommand fun given hread => ?_
    have hnone : given.has "export" = false := not_has_of_read (by decide) hread h rfl
    simp [Command.isReadOnly, Given.last?_eq_none hnone]
  | dryRun h =>
    refine isReadOnly_readCommand fun given hread => ?_
    exact has_of_mem_read (by decide) hread h

end Arguments

/-- **Commands touch only what they own.** Looking changes nothing; generating changes nothing if the
settings, the sources or a table cannot be read, and else what the units own. -/
theorem runArguments_touches_own (surroundings : Surroundings) (arguments : List String)
    (htree : surroundings.IsTree) :
    (Arguments.LooksOnly arguments ∨ (∀ command, Arguments.parse arguments ≠ .run command) →
      (runArguments surroundings arguments).files = surroundings.files) ∧
    ∀ options, Arguments.parse arguments = .run (.generate options) →
      let root := (Command.generate options).rootIn surroundings
      (∀ fault, Config.loadFor surroundings root = .error fault →
        (runArguments surroundings arguments).files = surroundings.files) ∧
      ∀ config, Config.loadFor surroundings root = .ok config →
        (∀ fault, (Project.generate surroundings root config options.types).result = .error fault →
          (runArguments surroundings arguments).files = surroundings.files) ∧
        ∀ project generation,
          (Project.generate surroundings root config options.types).result =
            .ok (project, generation) →
          (∀ unit ∈ generation.units, '/' ∉ unit.name.toList) →
          ∀ location, Touched surroundings.files (runArguments surroundings arguments).files
            (surroundings.namesTo (options.out.getD (config.outputDirectory root)))
            generation.units config.output.prune location := by
  refine ⟨fun h => files_runArguments_of_isReadOnly surroundings ?_, ?_⟩
  · rcases h with hlooks | hnone
    · exact hlooks.isReadOnly
    · cases hparse : Arguments.parse arguments with
      | run command => exact absurd hparse (hnone command)
      | help => rfl
      | version => rfl
      | bad => rfl
  intro options hparse root
  have hrun : (runArguments surroundings arguments).files =
      (Command.run surroundings (.generate options)).files := by
    rw [runArguments, hparse]
  rw [hrun]
  refine ⟨fun fault => Command.files_run_of_error, fun config hconfig => ?_⟩
  rw [Command.files_run_of_ok hconfig]
  refine ⟨fun fault => Command.files_runGenerate_of_error, ?_⟩
  intro project generation hresult hnames location
  have hfiles := Command.files_runGenerate_of_ok hresult
  change (Command.runWith surroundings config (.generate options)).files = _ at hfiles
  rw [hfiles]
  split
  · exact .kept rfl
  · exact GeneratedUnit.touched_writeAll htree.files htree.isPlain _ hnames _ location

def Surroundings.freshSample : Surroundings :=
  { files := ⟨
      [(["w"], .directory),
       (["w", "A.cs"], .file (.text "class A { void M() { On.A.M += F; } }"))]⟩
    directory := ["w"] }

theorem runArguments_touches_own_fresh :
    (runArguments .freshSample ["generate", "-ogen/x", "--dry-run"]).files =
      Surroundings.freshSample.files ∧
    ∃ config project generation,
      (Project.generate .freshSample "/w" config []).result = .ok (project, generation) ∧
      (runArguments .freshSample ["generate", "-ogen/x"]).files.get?
        ["w", "gen", "x", "On.A.g.cs"] ≠ none ∧
      ∀ location, Touched Surroundings.freshSample.files
        (runArguments .freshSample ["generate", "-ogen/x"]).files ["w", "gen", "x"]
        generation.units config.output.prune location := by
  have htree : Surroundings.freshSample.IsTree := ⟨by decide +kernel, by decide +kernel⟩
  have hlooks : Arguments.LooksOnly ["generate", "-ogen/x", "--dry-run"] := .dryRun (by decide)
  refine ⟨(runArguments_touches_own _ _ htree).1 (Or.inl hlooks), ?_⟩
  have hconfig : Config.loadFor .freshSample "/w" = .ok {} :=
    toOption_eq_some_iff.mp (by decide +kernel)
  have hpass : (Project.generate .freshSample "/w" {} []).result.toOption.any
      (fun result => decide (∀ unit ∈ result.2.units, '/' ∉ unit.name.toList)) = true := by
    decide +kernel
  obtain ⟨⟨project, generation⟩, hgenerate, hnames⟩ := exists_ok_of_any hpass
  have htouched := ((runArguments_touches_own _ ["generate", "-ogen/x"] htree).2
    { out := some "gen/x" } (by decide +kernel)).2 {} hconfig
  refine ⟨{}, project, generation, hgenerate, by decide +kernel, ?_⟩
  exact htouched.2 project generation hgenerate (of_decide_eq_true hnames)

end HookEvents
