import HookEvents.Generation.Unit
import HookEvents.Hook.Reference
import HookEvents.Workspace.Settings

namespace HookEvents

open Text

structure WriteSummary where
  written : List String := []
  unchanged : Nat := 0
  removed : List String := []
  deriving DecidableEq, Repr, Inhabited

structure WriteFault where
  path : String
  deriving DecidableEq, Repr, Inhabited

def isUnitName (name : String) : Bool :=
  endsWith generatedExtension name &&
    HookKind.all.any fun kind => startsWith (kind.root ++ ".") name

structure Written (α : Type) where
  files : FileSystem
  result : α

namespace GeneratedUnit

/-- Writes units one after the other; the first that cannot be written ends it. -/
def writeEach (locate : String → List FileName) (directory : String) :
    FileSystem → WriteSummary → List GeneratedUnit → Written (Except WriteFault WriteSummary)
  | files, summary, [] => { files, result := .ok summary }
  | files, summary, unit :: units =>
    let path := Path.join directory unit.fileName
    if files.readText? (locate path) = some unit.text then
      writeEach locate directory files { summary with unchanged := summary.unchanged + 1 } units
    else match files.write? (locate path) unit.text with
      | some files =>
        writeEach locate directory files { summary with written := summary.written ++ [path] } units
      | none => { files, result := .error ⟨path⟩ }

/-- The generated files in a directory that no unit stands for. Names that are no text are passed
over. -/
def stale (files : FileSystem) (place : List FileName) (units : List GeneratedUnit) :
    List String :=
  (files.children place).filterMap fun name => do
    let text ← name.text?
    if isUnitName text && !(units.map fileName).contains text && files.isFile (place ++ [name]) then
      some text
    else none

def prune (files : FileSystem) (place : List FileName) (units : List GeneratedUnit) : FileSystem :=
  (stale files place units).foldl
    (fun files name => files.erase (place ++ [FileName.ofText name])) files

def writeAll (surroundings : Surroundings) (directory : String) (units : List GeneratedUnit)
    (pruning : Bool) : Written (Except WriteFault WriteSummary) :=
  let location := surroundings.locate directory
  match surroundings.files.makeDirectories location with
  | (files, false) => { files, result := .error ⟨directory⟩ }
  | (files, true) =>
    let written := writeEach surroundings.locate directory files {} units
    match written.result with
    | .error fault => { written with result := .error fault }
    | .ok summary =>
      if pruning then
        let place := (written.files.resolve? location).getD location
        let removed := ((stale written.files place units).map (Path.join directory)).mergeSort
          fun a b => !(b < a)
        { files := prune written.files place units, result := .ok { summary with removed } }
      else { written with result := .ok summary }

end GeneratedUnit

end HookEvents
