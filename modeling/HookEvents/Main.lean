import HookEvents.Command.Run

/-!
The program: it reads the files that a command can see, runs the command on them, and carries out
the changes.
-/
namespace HookEvents.Disk

def pathOf (location : List FileName) : String := "/" ++ Text.lossy (Path.bytes location)

def loadFile (files : FileSystem) (location : List FileName) : IO FileSystem := do
  try
    let bytes ← IO.FS.readBinFile (pathOf location)
    return files.put location (.file (.ofBytes bytes.toList))
  catch _ => return files

def loadAncestors (files : FileSystem) (location : List FileName) : FileSystem :=
  (files.makeDirectories location.dropLast).1

/-- Reads a directory and all below it. A link is kept as a link to the place it leads to. -/
partial def loadTree (files : FileSystem) (location : List FileName) : IO FileSystem := do
  let place ← IO.FS.realPath (pathOf location)
  let mut files := (files.makeDirectories location).1
  for entry in ← place.readDir do
    let inner := location ++ [FileName.ofText entry.fileName]
    match (← entry.path.symlinkMetadata).type with
    | .dir => files ← loadTree files inner
    | .symlink =>
      let target ← try pure (← IO.FS.realPath entry.path).toString catch _ => pure "missing"
      files := files.put inner (.link (Text.utf8Bytes target))
    | _ => files ← loadFile files inner
  return files

def load (files : FileSystem) (location : List FileName) : IO FileSystem := do
  let files := loadAncestors files location
  try loadTree files location catch _ => loadFile files location

def loadIgnoreFiles (files : FileSystem) (location : List FileName) : IO FileSystem := do
  let mut files := files
  for n in List.range location.length do
    let directory := location.take n
    for path in [".hookgenignore", ".ignore", ".gitignore", ".git/info/exclude"] do
      let inner := Path.locate directory path
      if (← (try some <$> IO.FS.readBinFile (pathOf inner) catch _ => pure none)).isSome then
        files ← loadFile (loadAncestors files inner) inner
  return files

def apply (location : List FileName) : FileEntry → IO Unit
  | .directory => IO.FS.createDirAll (pathOf location)
  | .file (.text s) => IO.FS.writeFile (pathOf location) s
  | .file (.binary _) => pure ()
  | .link _ => pure ()

def applyChanges (before after : FileSystem) : IO Unit := do
  for (location, entry) in after.entries do
    if before.get? location ≠ some entry then apply location entry
  for (location, _) in before.entries do
    if (after.get? location).isNone then IO.FS.removeFile (pathOf location)

def variableNames : List String :=
  ["HOOKGEN_CONFIG_DIR", "XDG_CONFIG_HOME", "HOME", "RUST_LOG"]

def environment : IO Environment :=
  variableNames.filterMapM fun name => do return (← IO.getEnv name).map (name, ·)

def otherPaths (surroundings : Surroundings) (root : String) (command : Command) : List String :=
  let named := match command with
    | .generate options => options.types ++ options.out.toList
    | .types options => options.exportTo.toList
    | _ => []
  match Config.loadFor surroundings root with
  | .ok config => config.outputDirectory root :: config.typeTablePaths root ++ named
  | .error _ => named

def durationUnits : List (String × Nat) :=
  [("s", 1000000000), ("ms", 1000000), ("µs", 1000), ("ns", 1)]

def hundredthsText (n : Nat) : String :=
  toString (n / 100) ++ "." ++ toString (n / 10 % 10) ++ toString (n % 10)

def durationText (nanoseconds : Nat) : String :=
  let (name, length) :=
    (durationUnits.find? fun unit => unit.2 ≤ nanoseconds).getD ("ns", 1)
  hundredthsText ((nanoseconds * 100 + length / 2) / length) ++ name

def surroundingsOf (command : Command) : IO Surroundings := do
  let directory := (Text.split '/' (← IO.currentDir).toString).filter (· ≠ "")
  let environment ← environment
  let start ← IO.monoNanosNow
  let seed : Surroundings := { directory, environment }
  let root := command.rootIn seed
  let location := seed.locate root
  let mut files ← loadIgnoreFiles {} location
  files ← load files location
  for path in (Config.userPath? environment).toList do
    files ← load files (seed.locate path)
  for path in otherPaths { seed with files } root command do
    files ← load files (seed.locate path)
  let elapsed := durationText ((← IO.monoNanosNow) - start)
  return { seed with files, elapsed }

def levelName : LogLevel → String
  | .error => "ERROR"
  | .warn => " WARN"
  | .info => " INFO"
  | .debug => "DEBUG"
  | .trace => "TRACE"

def finish (before : FileSystem) (outcome : Outcome) : IO UInt32 := do
  for entry in outcome.log do
    IO.eprintln (levelName entry.level ++ " " ++ entry.message)
  applyChanges before outcome.files
  IO.print outcome.output
  for message in outcome.message.toList do
    IO.eprintln ("Error: " ++ message)
  return outcome.exit.toUInt32

end HookEvents.Disk

open HookEvents

def main (arguments : List String) : IO UInt32 := do
  match Arguments.parse arguments with
  | .run command =>
    let surroundings ← Disk.surroundingsOf command
    Disk.finish surroundings.files (command.run surroundings)
  | _ => Disk.finish {} (runArguments {} arguments)
