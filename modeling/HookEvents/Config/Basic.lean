import HookEvents.Text.Split

namespace HookEvents

open Text

structure GeneratorConfig where
  runtimeNamespace : String := "MonoMod.RuntimeDetour.HookGen"
  /-- The type whose operations register and unregister hooks. -/
  endpointManager : String := "HookEndpointManager"
  /-- The callback type of hooks that change the body of a method. -/
  manipulatorType : String := "MonoMod.Cil.ILContext.Manipulator"
  indent : Nat := 4
  header : Bool := true
  deriving DecidableEq, Repr, Inhabited

/-- A path from the global namespace, without dots at its ends. -/
def globalPath (path : String) : String :=
  let path := dropEndWhile '.' (dropStartWhile '.' path)
  if startsWith "global::" path then path else "global::" ++ path

namespace GeneratorConfig

def endpointManagerPath (config : GeneratorConfig) : String :=
  globalPath (config.runtimeNamespace ++ "." ++ config.endpointManager)

def manipulatorPath (config : GeneratorConfig) : String := globalPath config.manipulatorType

end GeneratorConfig

structure ScanConfig where
  extensions : List String := ["cs"]
  /-- The largest size in bytes. -/
  maxFileSize : Nat := 1048576
  skipGenerated : Bool := true
  followLinks : Bool := false
  /-- Paths of further type tables, absolute or inside the project. -/
  typeTables : List String := []
  deriving DecidableEq, Repr, Inhabited

structure OutputConfig where
  directory : String := "Generated/Hooks"
  prune : Bool := true
  deriving DecidableEq, Repr, Inhabited

structure LogConfig where
  level : String := "info"
  deriving DecidableEq, Repr, Inhabited

structure Config where
  generator : GeneratorConfig := {}
  scan : ScanConfig := {}
  output : OutputConfig := {}
  log : LogConfig := {}
  deriving DecidableEq, Repr, Inhabited

end HookEvents
