import HookEvents.Config.Basic
import HookEvents.Json.Fields

namespace HookEvents

open Json

namespace GeneratorConfig

def ofJson? (value : Json) : Option GeneratorConfig := do
  let default : GeneratorConfig := {}
  let fields ← Fields.ofJson? value
  let runtimeNamespace ← fields.optional "runtime_namespace" 0 text? default.runtimeNamespace
  let endpointManager ← fields.optional "endpoint_manager" 1 text? default.endpointManager
  let manipulatorType ← fields.optional "manipulator_type" 2 text? default.manipulatorType
  let indent ← fields.optional "indent" 3 natural? default.indent
  let header ← fields.optional "header" 4 bool? default.header
  guard (fields.fits 5)
  return { runtimeNamespace, endpointManager, manipulatorType, indent, header }

def toJson (config : GeneratorConfig) : Json :=
  .object [("runtime_namespace", .text config.runtimeNamespace),
    ("endpoint_manager", .text config.endpointManager),
    ("manipulator_type", .text config.manipulatorType),
    ("indent", .natural config.indent), ("header", .bool config.header)]

end GeneratorConfig

def Config.toJson (config : Config) : Json :=
  .object [("generator", config.generator.toJson),
    ("scan", .object [("extensions", .array (config.scan.extensions.map .text)),
      ("max_file_size", .natural config.scan.maxFileSize),
      ("skip_generated", .bool config.scan.skipGenerated),
      ("follow_links", .bool config.scan.followLinks),
      ("type_tables", .array (config.scan.typeTables.map .text))]),
    ("output", .object [("directory", .text config.output.directory),
      ("prune", .bool config.output.prune)]),
    ("log", .object [("level", .text config.log.level)])]

end HookEvents
