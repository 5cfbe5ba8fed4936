import HookEvents.Program
import HookEvents.Symbol.Json
import HookEvents.Workspace.Discovery
import HookEvents.Workspace.Settings

namespace HookEvents

inductive LogLevel where
  | error
  | warn
  | info
  | debug
  | trace
  deriving DecidableEq, Repr, Inhabited

structure LogEntry where
  level : LogLevel
  target : String
  message : String
  deriving DecidableEq, Repr, Inhabited

inductive ProjectFault where
  | notADirectory (path : String)
  | unreadableTable (path : String)
  | invalidTable (path : String)
  deriving DecidableEq, Repr, Inhabited

def ProjectFault.message : ProjectFault → String
  | .notADirectory path => "Not a directory: " ++ path
  | .unreadableTable path => "Cannot read type table: " ++ path
  | .invalidTable path => "Not a type table: " ++ path

structure Project where
  program : Program := {}
  files : List SourceFile := []
  failedFiles : Nat := 0
  deriving DecidableEq, Repr, Inhabited

structure Logged (α : Type) where
  entries : List LogEntry
  result : α

def loadTable (surroundings : Surroundings) (path : String) : Except ProjectFault TypeTable :=
  match surroundings.files.readText? (surroundings.locate path) with
  | none => .error (.unreadableTable path)
  | some text =>
    match TypeTable.ofJsonText? text with
    | none => .error (.invalidTable path)
    | some table => .ok table

namespace Project

def projectTarget : String := "codegen::project"

def addTables (surroundings : Surroundings) :
    Program → List String → Except ProjectFault Program
  | program, [] => .ok program
  | program, path :: paths =>
    match loadTable surroundings path with
    | .ok table => addTables surroundings (program.addTable table) paths
    | .error fault => .error fault

/-- Reads the sources in the order of their paths. Those that are no text are left out. -/
def read (surroundings : Surroundings) (root : String) (scan : SourceScan) :
    List (SourceFile × Option CSharp.Analysis) :=
  let location := surroundings.locate root
  scan.files.map fun file =>
    (file, (surroundings.files.readText? (location ++ file.path)).map CSharp.analyze)

def ofScan (surroundings : Surroundings) (root : String) (config : Config) (tables : List String)
    (scan : SourceScan) : Logged (Except ProjectFault Project) :=
  let sources := read surroundings root scan
  let failed := (sources.filter fun source => source.2.isNone).map (·.1)
  let warnings := failed.map fun file =>
    { level := .warn, target := projectTarget
      message := "failed to read source file, skipping " ++ file.relativePath }
  let program := Program.ofAnalyses (sources.filterMap (·.2))
  let paths := config.typeTablePaths root ++ tables
  { entries := { level := .info, target := projectTarget, message := "scan complete" } :: warnings
    result := do
      let program ← addTables surroundings program paths
      return { program, files := scan.files, failedFiles := failed.length } }

def analyze (surroundings : Surroundings) (root : String) (config : Config)
    (tables : List String) : Logged (Except ProjectFault Project) :=
  match config.scan.scan? surroundings.files (surroundings.locate root) with
  | none => { entries := [], result := .error (.notADirectory root) }
  | some scan => ofScan surroundings root config tables scan

def withHooks (config : Config) (analyzed : Logged (Except ProjectFault Project)) :
    Logged (Except ProjectFault (Project × Generation)) :=
  match analyzed.result with
  | .error fault => { analyzed with result := .error fault }
  | .ok project =>
    let complete : LogEntry :=
      { level := .info, target := "codegen::pipeline", message := "generation complete" }
    { entries := analyzed.entries ++ [complete]
      result := .ok (project, project.program.generate config.generator) }

def generate (surroundings : Surroundings) (root : String) (config : Config)
    (tables : List String) : Logged (Except ProjectFault (Project × Generation)) :=
  withHooks config (analyze surroundings root config tables)

end Project
end HookEvents
