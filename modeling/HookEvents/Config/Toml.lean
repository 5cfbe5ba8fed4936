import HookEvents.Config.Basic
import HookEvents.Toml.Printer
import HookEvents.Toml.Reader

/-!
Settings as TOML. Sections and settings that are missing have their defaults, unknown ones are
ignored, and a section may be the list of its settings in order.
-/
namespace HookEvents

open Toml

inductive Section where
  | named (entries : List (String × Toml))
  | listed (items : List Toml)

namespace Section

def ofToml? : Toml → Option Section
  | .table entries => some (.named entries)
  | .array items => some (.listed items)
  | .moment _ => some (.named [])
  | _ => none

def value? (settings : Section) (name : String) (position : Nat) : Option Toml :=
  match settings with
  | .named entries => entries.lookup name
  | .listed items => items[position]?

def get {α : Type} (settings : Section) (name : String) (position : Nat)
    (decode : Toml → Option α) (default : α) : Option α :=
  match settings.value? name position with
  | some value => decode value
  | none => some default

end Section

namespace Toml

def text? : Toml → Option String
  | .text s => some s
  | _ => none

def bool? : Toml → Option Bool
  | .bool b => some b
  | _ => none

/-- A number of 64 bits without a sign. -/
def natural? : Toml → Option Nat
  | .integer n => if 0 ≤ n && n.toNat < Nat.pow 2 64 then some n.toNat else none
  | _ => none

def texts? : Toml → Option (List String)
  | .array items => items.mapM text?
  | _ => none

end Toml

def GeneratorConfig.ofToml? (value : Toml) : Option GeneratorConfig := do
  let default : GeneratorConfig := {}
  let settings ← Section.ofToml? value
  let runtimeNamespace ← settings.get "runtime_namespace" 0 text? default.runtimeNamespace
  let endpointManager ← settings.get "endpoint_manager" 1 text? default.endpointManager
  let manipulatorType ← settings.get "manipulator_type" 2 text? default.manipulatorType
  let indent ← settings.get "indent" 3 natural? default.indent
  let header ← settings.get "header" 4 bool? default.header
  return { runtimeNamespace, endpointManager, manipulatorType, indent, header }

def ScanConfig.ofToml? (value : Toml) : Option ScanConfig := do
  let default : ScanConfig := {}
  let settings ← Section.ofToml? value
  let extensions ← settings.get "extensions" 0 texts? default.extensions
  let maxFileSize ← settings.get "max_file_size" 1 natural? default.maxFileSize
  let skipGenerated ← settings.get "skip_generated" 2 bool? default.skipGenerated
  let followLinks ← settings.get "follow_links" 3 bool? default.followLinks
  let typeTables ← settings.get "type_tables" 4 texts? default.typeTables
  return { extensions, maxFileSize, skipGenerated, followLinks, typeTables }

def OutputConfig.ofToml? (value : Toml) : Option OutputConfig := do
  let default : OutputConfig := {}
  let settings ← Section.ofToml? value
  let directory ← settings.get "directory" 0 text? default.directory
  let prune ← settings.get "prune" 1 bool? default.prune
  return { directory, prune }

def LogConfig.ofToml? (value : Toml) : Option LogConfig := do
  let default : LogConfig := {}
  let settings ← Section.ofToml? value
  return { level := ← settings.get "level" 0 text? default.level }

namespace Config

def ofToml? (value : Toml) : Option Config := do
  let settings ← Section.ofToml? value
  let generator ← settings.get "generator" 0 GeneratorConfig.ofToml? {}
  let scan ← settings.get "scan" 1 ScanConfig.ofToml? {}
  let output ← settings.get "output" 2 OutputConfig.ofToml? {}
  let log ← settings.get "log" 3 LogConfig.ofToml? {}
  return { generator, scan, output, log }

def ofTomlText? (source : String) : Option Config := do ofToml? (← Toml.parse? source)

def toTomlText (config : Config) : String :=
  Text.join "\n"
    [renderTable "generator"
      [("runtime_namespace", renderText config.generator.runtimeNamespace),
        ("endpoint_manager", renderText config.generator.endpointManager),
        ("manipulator_type", renderText config.generator.manipulatorType),
        ("indent", toString config.generator.indent),
        ("header", renderBool config.generator.header)],
    renderTable "scan"
      [("extensions", renderTexts config.scan.extensions),
        ("max_file_size", toString config.scan.maxFileSize),
        ("skip_generated", renderBool config.scan.skipGenerated),
        ("follow_links", renderBool config.scan.followLinks),
        ("type_tables", renderTexts config.scan.typeTables)],
    renderTable "output"
      [("directory", renderText config.output.directory),
        ("prune", renderBool config.output.prune)],
    renderTable "log" [("level", renderText config.log.level)]]

end Config
end HookEvents
