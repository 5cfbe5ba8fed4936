import HookEvents.Config.Toml
import HookEvents.Workspace.FileSystem

/-!
Where settings come from: the project's own file, else the user's file, else the defaults.
-/
namespace HookEvents

abbrev Environment := List (String × String)

structure Surroundings where
  files : FileSystem := {}
  directory : List String := []
  environment : Environment := []
  /-- How long a scan takes, as it is printed. -/
  elapsed : String := ""
  deriving DecidableEq, Repr, Inhabited

def Surroundings.place (surroundings : Surroundings) : List FileName :=
  surroundings.directory.map FileName.ofText

def Surroundings.locate (surroundings : Surroundings) (path : String) : List FileName :=
  Path.locate surroundings.place path

inductive ConfigFault where
  /-- The file is there but is no text that can be read. -/
  | unreadable
  /-- The text is no TOML, or a setting has the wrong type. -/
  | invalid
  deriving DecidableEq, Repr, Inhabited

def projectConfigName : String := ".hookgen.toml"

namespace Config

def projectPath (root : String) : String := Path.join root projectConfigName

/-- The user's file. A directory for this program alone goes before one for all programs. -/
def userPath? (environment : Environment) : Option String :=
  match environment.lookup "HOOKGEN_CONFIG_DIR" with
  | some directory => some (Path.join directory "config.toml")
  | none =>
    match environment.lookup "XDG_CONFIG_HOME" with
    | some directory => some (Path.join (Path.join directory "hookgen") "config.toml")
    | none =>
      (environment.lookup "HOME").map fun home =>
        Path.join (Path.join (Path.join home ".config") "hookgen") "config.toml"

def loadFile (surroundings : Surroundings) (path : String) : Except ConfigFault Config :=
  match surroundings.files.readText? (surroundings.locate path) with
  | none => .error .unreadable
  | some source =>
    match ofTomlText? source with
    | none => .error .invalid
    | some config => .ok config

inductive Source where
  | project (path : String)
  | user (path : String)
  | default
  deriving DecidableEq, Repr, Inhabited

def sourceFor (surroundings : Surroundings) (root : String) : Source :=
  let isThere (path : String) : Bool := surroundings.files.isThere (surroundings.locate path)
  if isThere (projectPath root) then .project (projectPath root)
  else match (userPath? surroundings.environment).filter isThere with
    | some path => .user path
    | none => .default

def loadFor (surroundings : Surroundings) (root : String) : Except ConfigFault Config :=
  match sourceFor surroundings root with
  | .project path => loadFile surroundings path
  | .user path => loadFile surroundings path
  | .default => .ok {}

def outputDirectory (config : Config) (root : String) : String :=
  Path.join root config.output.directory

def typeTablePaths (config : Config) (root : String) : List String :=
  config.scan.typeTables.map (Path.join root)

end Config
end HookEvents
