import HookEvents.Generation.Json
import HookEvents.Json.Printer
import HookEvents.Symbol.Json
import HookEvents.Workspace.Output
import HookEvents.Workspace.Project

namespace HookEvents

open Json Text

def printed (lines : List String) : String := String.join (lines.map (· ++ "\n"))

def UnresolvedReason.title : UnresolvedReason → String
  | .unknownType => "UnknownType"
  | .unknownMethod => "UnknownMethod"
  | .genericType => "GenericType"
  | .genericMethod => "GenericMethod"

def counted (count : Nat) (noun : String) : String := toString count ++ " " ++ noun ++ "(s)"

namespace WriteSummary

def toJson (summary : WriteSummary) : Json :=
  .object [("written", .array (summary.written.map .text)),
    ("unchanged", .natural summary.unchanged),
    ("removed", .array (summary.removed.map .text))]

def displayName (path : String) : String :=
  ((Path.fileName? path).map FileName.lossy).getD path

def lines (summary : WriteSummary) (directory : String) : List String :=
  ["Output:    " ++ directory, "Written:   " ++ toString summary.written.length,
      "Unchanged: " ++ toString summary.unchanged]
    ++ (if summary.removed.isEmpty then []
      else ["Removed:   " ++ toString summary.removed.length])
    ++ summary.written.map (fun path => "  + " ++ displayName path)
    ++ summary.removed.map (fun path => "  - " ++ displayName path)

end WriteSummary

structure GenerateReport where
  directory : String
  project : Project
  generation : Generation
  summary : Option WriteSummary

namespace GenerateReport

def lines (report : GenerateReport) : List String :=
  let stats := report.generation.stats
  let unresolved := report.generation.unresolved
  ["Generated " ++ counted stats.units "unit" ++ " with " ++ counted stats.members "hook" ++
      " from " ++ counted report.project.files.length "file"]
    ++ (match report.summary with
      | some summary => summary.lines report.directory
      | none => ("Dry run, nothing written to " ++ report.directory) ::
          report.generation.units.map fun unit => "  " ++ unit.fileName)
    ++ (if unresolved.isEmpty then []
      else ["", "Skipped " ++ counted unresolved.length "unresolved reference" ++ ":"] ++
        unresolved.map fun item =>
          "  " ++ item.reference.text ++ " (" ++ item.reason.title ++ ")")
    ++ (if report.project.failedFiles = 0 then []
      else ["", counted report.project.failedFiles "file" ++ " could not be read or parsed"])

def toJson (report : GenerateReport) : Json :=
  sorted (.object [("output", .text report.directory), ("dry_run", .bool report.summary.isNone),
    ("files", .natural report.project.files.length),
    ("failed_files", .natural report.project.failedFiles),
    ("units", .array (report.generation.units.map fun unit => .text unit.fileName)),
    ("stats", report.generation.stats.toJson),
    ("unresolved", .array (report.generation.unresolved.map Unresolved.toJson)),
    ("write", (report.summary.map WriteSummary.toJson).getD .null)])

end GenerateReport

namespace Project

def referenceLine (project : Project) (reference : HookReference) : String :=
  match resolve project.program.model reference with
  | .ok _ => "  " ++ reference.text
  | .error reason => "  " ++ reference.text ++ "  (" ++ reason.title ++ ")"

def scanLines (project : Project) (elapsed : String) : List String :=
  ("Scanned " ++ counted project.files.length "file" ++ " in " ++ elapsed) ::
    (HookKind.all.map fun kind =>
      let references := (project.program.references.ofKind kind).references
      ["", kind.root ++ " (" ++ kind.name ++ "): " ++ toString references.length] ++
        references.map project.referenceLine).flatten

def methodLine (method : Method) : String :=
  "  " ++ (if method.isStatic then "static " else "") ++ method.returnType.getD "void" ++ " " ++
    method.name ++ "(" ++ join ", " method.parameters ++ ")"

def typeLines (project : Project) : List String :=
  let table := project.program.types
  (counted table.size "type" ++ ", " ++ counted table.methodCount "method") ::
    (table.types.map fun symbol =>
      ["", symbol.qualifiedName] ++ symbol.methods.map methodLine).flatten

end Project

def Config.showLines (source : Config.Source) (config : Config) (root : String) : List String :=
  ["Effective configuration for: " ++ root, "",
    match source with
      | .project path => "Using project config: " ++ path
      | .user path => "Using user config: " ++ path
      | .default => "Using default configuration (no config file found)",
    "", config.toTomlText]

end HookEvents
