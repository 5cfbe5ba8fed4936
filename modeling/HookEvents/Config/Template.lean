import HookEvents.Config.Basic

namespace HookEvents.Config

def templateLines : List String :=
  let generator : GeneratorConfig := {}
  let scan : ScanConfig := {}
  [
    "# hookgen Configuration",
    "# Place in .hookgen.toml (project) or ~/.config/hookgen/config.toml (user)",
    "",
    "# ============================================================================",
    "# Generated Code",
    "# ============================================================================",
    "",
    "[generator]",
    "# Namespace and type of the runtime hook endpoint manager",
    "runtime_namespace = \"" ++ generator.runtimeNamespace ++ "\"",
    "endpoint_manager = \"" ++ generator.endpointManager ++ "\"",
    "",
    "# Callback type used by IL (transform) hooks",
    "manipulator_type = \"" ++ generator.manipulatorType ++ "\"",
    "",
    "# Spaces per indentation level",
    "indent = " ++ toString generator.indent,
    "",
    "# Emit an <auto-generated /> header",
    "header = true",
    "",
    "# ============================================================================",
    "# Source Discovery",
    "# ============================================================================",
    "",
    "[scan]",
    "# Extensions to scan for hook references and type declarations",
    "extensions = [\"cs\"]",
    "",
    "# Skip files larger than this (bytes)",
    "max_file_size = " ++ toString scan.maxFileSize,
    "",
    "# Ignore previously generated *.g.cs files",
    "skip_generated = true",
    "",
    "# Follow symlinks while walking the project",
    "follow_links = false",
    "",
    "# Extra type tables exported from referenced assemblies (JSON):",
    "# type_tables = [\"metadata/Assembly-CSharp.json\"]",
    "",
    "# ============================================================================",
    "# Output",
    "# ============================================================================",
    "",
    "[output]",
    "# Directory for generated files (relative to project root)",
    "directory = \"Generated/Hooks\"",
    "",
    "# Remove On.*/IL.* files that are no longer generated",
    "prune = true",
    "",
    "# ============================================================================",
    "# Logging",
    "# ============================================================================",
    "",
    "[log]",
    "# Log level: error, warn, info, debug, trace (RUST_LOG overrides)",
    "level = \"info\""
  ]

def template : String := String.join (templateLines.map (· ++ "\n"))

end HookEvents.Config
