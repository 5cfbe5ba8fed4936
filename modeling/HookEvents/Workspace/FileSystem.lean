import HookEvents.Workspace.Path

/-!
Directories, files and symbolic links, held in memory. A location is the list of names from the root
of all files; it may pass through links and hold the steps `.` and `..`.
-/
namespace HookEvents

inductive FileContent where
  | text (s : String)
  | binary (bytes : List UInt8)
  deriving DecidableEq, Repr, Inhabited

namespace FileContent

def ofBytes (bytes : List UInt8) : FileContent :=
  match Text.decodeUtf8? bytes with
  | some s => .text s
  | none => .binary bytes

def size : FileContent → Nat
  | .text s => s.utf8ByteSize
  | .binary bytes => bytes.length

def text? : FileContent → Option String
  | .text s => some s
  | .binary _ => none

def newline : UInt8 := 10

def decodeWhile : List (List UInt8) → List String
  | [] => []
  | line :: lines =>
    match Text.decodeUtf8? line with
    | some s => s :: decodeWhile lines
    | none => []

/-- The lines up to the first that is not text. -/
def lines : FileContent → List String
  | .text s => Text.split '\n' s
  | .binary bytes => decodeWhile (bytes.splitOn newline)

end FileContent

inductive FileEntry where
  | directory
  | file (content : FileContent)
  | link (target : List UInt8)
  deriving DecidableEq, Repr, Inhabited

/-- The entries by location, each of plain names. The root is a directory and not listed. -/
structure FileSystem where
  entries : List (List FileName × FileEntry) := []
  deriving DecidableEq, Repr, Inhabited

namespace FileSystem

def get? (files : FileSystem) (location : List FileName) : Option FileEntry :=
  if location.isEmpty then some .directory else files.entries.lookup location

def erase (files : FileSystem) (location : List FileName) : FileSystem :=
  { entries := files.entries.filter fun entry => entry.1 ≠ location }

def eraseAll (files : FileSystem) (location : List FileName) : FileSystem :=
  { entries := files.entries.filter fun entry => !location.isPrefixOf entry.1 }

def put (files : FileSystem) (location : List FileName) (entry : FileEntry) : FileSystem :=
  { entries := (files.erase location).entries ++ [(location, entry)] }

def childName? (location : List FileName) (entry : List FileName × FileEntry) : Option FileName :=
  if entry.1.dropLast = location then entry.1.getLast? else none

/-- The names in a directory, in no order of their own. -/
def children (files : FileSystem) (location : List FileName) : List FileName :=
  files.entries.filterMap (childName? location)

/-- Follows a location step by step, from a directory that is already reached. What is missing may
only be the last step; a link there is followed if `follow` says so. -/
def walk (files : FileSystem) (follow : Bool) : Nat → List FileName → List FileName →
    Option (List FileName)
  | 0, _, _ => none
  | _ + 1, reached, [] => some reached
  | fuel + 1, reached, step :: rest =>
    if step = .here then files.walk follow fuel reached rest
    else if step = .up then files.walk follow fuel reached.dropLast rest
    else
      let location := reached ++ [step]
      match files.get? location with
      | some .directory => files.walk follow fuel location rest
      | some (.link target) =>
        if rest.isEmpty && !follow then some location
        else
          let start := if target.head? = some Path.slash then [] else reached
          files.walk follow fuel start (Path.steps target ++ rest)
      | _ => if rest.isEmpty then some location else none

def linkSteps : Nat := 1000

def resolve? (files : FileSystem) (location : List FileName) : Option (List FileName) :=
  files.walk true (location.length + linkSteps) [] location

/-- The place that a location means, where a link at its end is itself meant. -/
def resolveOwn? (files : FileSystem) (location : List FileName) : Option (List FileName) :=
  files.walk false (location.length + linkSteps) [] location

def entry? (files : FileSystem) (location : List FileName) : Option FileEntry :=
  (files.resolve? location).bind files.get?

def ownEntry? (files : FileSystem) (location : List FileName) : Option FileEntry :=
  (files.resolveOwn? location).bind files.get?

def isThere (files : FileSystem) (location : List FileName) : Bool := (files.entry? location).isSome

def isDirectory (files : FileSystem) (location : List FileName) : Bool :=
  files.entry? location = some .directory

def read? (files : FileSystem) (location : List FileName) : Option FileContent :=
  match files.entry? location with
  | some (.file content) => some content
  | _ => none

def isFile (files : FileSystem) (location : List FileName) : Bool := (files.read? location).isSome

def readText? (files : FileSystem) (location : List FileName) : Option String :=
  (files.read? location).bind FileContent.text?

def write? (files : FileSystem) (location : List FileName) (text : String) : Option FileSystem := do
  let place ← files.resolve? location
  match files.get? place with
  | some .directory => none
  | _ => return files.put place (.file (.text text))

def makeDirectory? (files : FileSystem) (location : List FileName) : Option FileSystem := do
  let place ← files.resolveOwn? location
  match files.get? place with
  | some _ => none
  | none => return files.put place .directory

/-- Makes the directories of a location one after the other, as far as possible; the second part
says whether all are there. -/
def makeDirectoriesFrom (files : FileSystem) (reached : List FileName) :
    List FileName → FileSystem × Bool
  | [] => (files, true)
  | step :: rest =>
    let location := reached ++ [step]
    if files.isDirectory location then files.makeDirectoriesFrom location rest
    else match files.makeDirectory? location with
      | some files => files.makeDirectoriesFrom location rest
      | none => (files, false)

def makeDirectories (files : FileSystem) (location : List FileName) : FileSystem × Bool :=
  files.makeDirectoriesFrom [] (location.filter (· ≠ FileName.here))

end FileSystem
end HookEvents
