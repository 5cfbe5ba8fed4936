import HookEvents.Command.Arguments
import HookEvents.Command.Log
import HookEvents.Command.Report
import HookEvents.Config.Template

namespace HookEvents

open Text

structure Outcome where
  exit : Nat := 0
  output : String := ""
  /-- What went wrong, if the command failed for a reason other than its arguments. -/
  message : Option String := none
  log : List LogEntry := []
  files : FileSystem

namespace Command

def succeed (files : FileSystem) (log : List LogEntry) (lines : List String) : Outcome :=
  { output := printed lines, log, files }

def fail (files : FileSystem) (log : List LogEntry) (message : String) : Outcome :=
  { exit := 1, message := some message, log, files }

def outputUpdated : LogEntry :=
  { level := .info, target := "codegen::output", message := "output updated" }

def reportGenerate (options : GenerateOptions) (files : FileSystem) (log : List LogEntry)
    (report : GenerateReport) : Outcome :=
  succeed files log (if options.json then [report.toJson.pretty] else report.lines)

def runGenerate (surroundings : Surroundings) (root : String) (config : Config)
    (options : GenerateOptions) : Outcome :=
  let generated := Project.generate surroundings root config options.types
  match generated.result with
  | .error _ => fail surroundings.files generated.entries "Failed to generate hooks"
  | .ok (project, generation) =>
    let directory := options.out.getD (config.outputDirectory root)
    if options.dryRun then
      reportGenerate options surroundings.files generated.entries
        { directory, project, generation, summary := none }
    else
      let written :=
        GeneratedUnit.writeAll surroundings directory generation.units config.output.prune
      match written.result with
      | .error _ => fail written.files generated.entries ("Failed to write units to " ++ directory)
      | .ok summary =>
        reportGenerate options written.files (generated.entries ++ [outputUpdated])
          { directory, project, generation, summary := some summary }

def runScan (surroundings : Surroundings) (root : String) (config : Config)
    (options : ScanOptions) : Outcome :=
  let analyzed := Project.analyze surroundings root config []
  match analyzed.result with
  | .error _ => fail surroundings.files analyzed.entries "Failed to scan project"
  | .ok project =>
    succeed surroundings.files analyzed.entries
      (if options.json then [project.program.references.toJson.pretty]
        else project.scanLines surroundings.elapsed)

def runTypes (surroundings : Surroundings) (root : String) (config : Config)
    (options : TypesOptions) : Outcome :=
  let analyzed := Project.analyze surroundings root config []
  match analyzed.result with
  | .error _ => fail surroundings.files analyzed.entries "Failed to collect types"
  | .ok project =>
    let table := project.program.types
    match options.exportTo with
    | some path =>
      match surroundings.files.write? (surroundings.locate path) table.toJsonText with
      | some files =>
        succeed files analyzed.entries
          ["Exported " ++ counted table.size "type" ++ " to " ++ path]
      | none => fail surroundings.files analyzed.entries ("Failed to write " ++ path)
    | none =>
      succeed surroundings.files analyzed.entries
        (if options.json then [table.toJsonText] else project.typeLines)

def runConfigInit (surroundings : Surroundings) (root : String) (force : Bool) : Outcome :=
  let path := Config.projectPath root
  let location := surroundings.locate path
  if surroundings.files.isThere location && !force then
    fail surroundings.files []
      ("Config file already exists: " ++ path ++ " (use --force to overwrite)")
  else match surroundings.files.write? location Config.template with
    | some files =>
      succeed files []
        ["Created project config: " ++ path, "Edit the file to customize settings."]
    | none => fail surroundings.files [] "No such file or directory (os error 2)"

def rootIn (surroundings : Surroundings) (command : Command) : String :=
  command.path.getD ("/" ++ join "/" surroundings.directory)

def runWith (surroundings : Surroundings) (config : Config) (command : Command) : Outcome :=
  let root := command.rootIn surroundings
  match command with
  | .generate options => runGenerate surroundings root config options
  | .scan options => runScan surroundings root config options
  | .types options => runTypes surroundings root config options
  | .configShow _ =>
    succeed surroundings.files []
      (config.showLines (Config.sourceFor surroundings root) root)
  | .configInit options => runConfigInit surroundings root options.force

def run (surroundings : Surroundings) (command : Command) : Outcome :=
  match Config.loadFor surroundings (command.rootIn surroundings) with
  | .error _ => fail surroundings.files [] "Failed to load configuration"
  | .ok config =>
    let outcome := runWith surroundings config command
    let filter := (surroundings.environment.lookup "RUST_LOG").getD ""
    { outcome with log := outcome.log.filter (isShown config.log filter) }

end Command

def versionLine : String := "hookgen 0.1.0"

def runArguments (surroundings : Surroundings) (arguments : List String) : Outcome :=
  match Arguments.parse arguments with
  | .run command => command.run surroundings
  | .version => Command.succeed surroundings.files [] [versionLine]
  | .help => { files := surroundings.files }
  | .bad => { exit := 2, files := surroundings.files }

end HookEvents
