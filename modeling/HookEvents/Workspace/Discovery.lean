import HookEvents.Config.Basic
import HookEvents.Generation.Unit
import HookEvents.Text.Lowercase
import HookEvents.Workspace.Ignore

namespace HookEvents

open Text

structure FoundFile where
  /-- The names below the root of the walk. -/
  path : List FileName
  size : Nat
  deriving DecidableEq, Repr, Inhabited

namespace FoundFile

def name (file : FoundFile) : FileName := file.path.getLastD ""

end FoundFile

inductive Found where
  | directory
  | file (size : Nat)
  /-- A link that leads nowhere, or back to a directory around it. -/
  | nothing

structure Walk where
  files : FileSystem
  root : List FileName
  followLinks : Bool

namespace Walk

def isAround (walk : Walk) (place path : List FileName) : Bool :=
  (List.range (path.length + 1)).any fun n =>
    walk.files.resolve? (walk.root ++ path.take n) = some place

def inspect (walk : Walk) (path : List FileName) (name : FileName) : Found :=
  let location := walk.root ++ path ++ [name]
  match walk.files.ownEntry? location with
  | some .directory => .directory
  | some (.file content) => .file content.size
  | some (.link target) =>
    if walk.followLinks then
      match walk.files.resolve? location with
      | some place =>
        match walk.files.get? place with
        | some .directory => if walk.isAround place path then .nothing else .directory
        | some (.file content) => .file content.size
        | _ => .nothing
      | none => .nothing
    else .file target.length
  | none => .nothing

/-- Hidden entries are left out unless an ignore file keeps them. -/
def admits (levels : List IgnoreLevel) (location : List FileName) (name : FileName)
    (isDirectory : Bool) : Bool :=
  match IgnoreLevel.decide? levels location isDirectory with
  | some .ignored => false
  | some .kept => true
  | none => !name.isHidden

mutual

def directory (walk : Walk) : Nat → List IgnoreLevel → List FileName → List FoundFile
  | 0, _, _ => []
  | fuel + 1, above, path =>
    let location := walk.root ++ path
    let levels := IgnoreLevel.ofDirectory walk.files location :: above
    let place := (walk.files.resolve? location).getD location
    walk.entries fuel levels path (walk.files.children place)

def entries (walk : Walk) : Nat → List IgnoreLevel → List FileName → List FileName →
    List FoundFile
  | _, _, _, [] => []
  | 0, _, _, _ :: _ => []
  | fuel + 1, levels, path, name :: names =>
    let location := walk.root ++ path ++ [name]
    let found := match walk.inspect path name with
      | .directory =>
        if admits levels location name true then walk.directory fuel levels (path ++ [name]) else []
      | .file size =>
        if admits levels location name false then [⟨path ++ [name], size⟩] else []
      | .nothing => []
    found ++ walk.entries fuel levels path names

end

/-- All files that the walk finds, in one of the orders in which they can be delivered. -/
def found (walk : Walk) : List FoundFile :=
  let count := walk.files.entries.length
  walk.directory ((count + 2) * (count + 2)) (IgnoreLevel.above walk.files walk.root) []

end Walk

structure SourceFile where
  path : List FileName
  relativePath : String
  size : Nat
  deriving DecidableEq, Repr, Inhabited

structure SourceScan where
  files : List SourceFile := []
  /-- Files with a wanted extension that are generated, empty or too large. -/
  skipped : Nat := 0
  bytes : Nat := 0
  deriving DecidableEq, Repr, Inhabited

inductive Selection where
  | selected (file : SourceFile)
  | skipped
  | unwanted
  deriving DecidableEq, Repr, Inhabited

namespace Selection

def file? : Selection → Option SourceFile
  | selected file => some file
  | _ => none

end Selection

namespace SourceScan

def add (scan : SourceScan) : Selection → SourceScan
  | .selected file =>
    { scan with files := scan.files ++ [file], bytes := scan.bytes + file.size }
  | .skipped => { scan with skipped := scan.skipped + 1 }
  | .unwanted => scan

theorem foldl_add (selections : List Selection) (scan : SourceScan) :
    selections.foldl add scan =
      { files := scan.files ++ selections.filterMap Selection.file?
        skipped := scan.skipped + selections.count .skipped
        bytes := (selections.filterMap Selection.file?).foldl
          (fun bytes file => bytes + file.size) scan.bytes } := by
  induction selections generalizing scan with
  | nil => simp
  | cons selection selections ih =>
    rw [List.foldl_cons, ih, List.filterMap_cons]
    cases selection with
    | selected file => simp [add, Selection.file?]
    | skipped => simp [add, Selection.file?, Nat.add_comm, Nat.add_left_comm]
    | unwanted => simp [add, Selection.file?]

end SourceScan

namespace ScanConfig

def wantedExtensions (config : ScanConfig) : List String :=
  config.extensions.map fun extension => lowercase (dropStartWhile '.' extension)

def wantsExtension (config : ScanConfig) (name : FileName) : Bool :=
  match name.extension?.bind FileName.text? with
  | some extension =>
    config.wantedExtensions.any fun wanted => lowerAscii wanted = lowerAscii extension
  | none => false

def isGenerated (name : FileName) : Bool :=
  match name.text? with
  | some text => endsWith generatedExtension text
  | none => false

def relativePath (path : List FileName) : String :=
  String.ofList ((lossy (Path.bytes path)).toList.map fun c => if c = '\\' then '/' else c)

def select (config : ScanConfig) (file : FoundFile) : Selection :=
  if !config.wantsExtension file.name then .unwanted
  else if config.skipGenerated && isGenerated file.name then .skipped
  else if file.size = 0 || config.maxFileSize < file.size then .skipped
  else .selected { path := file.path, relativePath := relativePath file.path, size := file.size }

def visit (config : ScanConfig) (scan : SourceScan) (file : FoundFile) : SourceScan :=
  scan.add (config.select file)

def scanOf (config : ScanConfig) (found : List FoundFile) : SourceScan :=
  let scan := found.foldl config.visit {}
  { scan with files := scan.files.mergeSort fun a b => !(b.relativePath < a.relativePath) }

theorem scanOf_eq (config : ScanConfig) (found : List FoundFile) :
    config.scanOf found =
      { files := ((found.map config.select).filterMap Selection.file?).mergeSort
          fun a b => !(b.relativePath < a.relativePath)
        skipped := (found.map config.select).count .skipped
        bytes := ((found.map config.select).filterMap Selection.file?).foldl
          (fun bytes file => bytes + file.size) 0 } := by
  have hfold : found.foldl config.visit {} = (found.map config.select).foldl SourceScan.add {} := by
    rw [List.foldl_map]
    rfl
  rw [scanOf, hfold, SourceScan.foldl_add]
  simp

def walk? (config : ScanConfig) (files : FileSystem) (location : List FileName) : Option Walk :=
  if files.isDirectory location then
    some { files, root := (files.resolve? location).getD location, followLinks := config.followLinks }
  else none

def scan? (config : ScanConfig) (files : FileSystem) (location : List FileName) :
    Option SourceScan :=
  (config.walk? files location).map fun walk => config.scanOf walk.found

end ScanConfig
end HookEvents
