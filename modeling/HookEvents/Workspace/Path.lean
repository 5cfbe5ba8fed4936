import HookEvents.Text.Split
import HookEvents.Text.Utf8

/-!
File names, which are bytes and need not be text, and paths.
-/
namespace HookEvents

open Text

structure FileName where
  bytes : List UInt8
  deriving DecidableEq, Repr, Inhabited

namespace FileName

def ofText (s : String) : FileName := ⟨utf8Bytes s⟩

instance : Coe String FileName := ⟨ofText⟩

def here : FileName := "."

def up : FileName := ".."

def text? (name : FileName) : Option String := decodeUtf8? name.bytes

def lossy (name : FileName) : String := Text.lossy name.bytes

def dot : UInt8 := 46

def isHidden (name : FileName) : Bool := name.bytes.head? = some dot

/-- What follows the last dot of a name, unless the name begins with it. -/
def extension? (name : FileName) : Option FileName :=
  match cutLast dot name.bytes with
  | some (stem, ending) => if stem.isEmpty then none else some ⟨ending⟩
  | none => none

end FileName

namespace Path

def slash : UInt8 := 47

def isAbsolute (path : String) : Bool := startsWith "/" path

/-- A path inside another. An absolute path stands alone, and joining nothing ends in a slash. -/
def join (base path : String) : String :=
  if isAbsolute path || base = "" then path
  else if endsWith "/" base then base ++ path
  else base ++ "/" ++ path

def bytes (names : List FileName) : List UInt8 :=
  List.intercalate [slash] (names.map FileName.bytes)

def parts (path : List UInt8) : List FileName := (path.splitOn slash).map FileName.mk

def isName (part : FileName) : Bool := part ≠ "" && part ≠ .here

/-- The names of a path. A slash at the end, which asks for a directory, leaves a step `here`. -/
def steps (path : List UInt8) : List FileName :=
  let parts := parts path
  let names := parts.filter isName
  if 2 ≤ parts.length && !isName (parts.getLastD "") then names ++ [.here] else names

def locate (directory : List FileName) (path : String) : List FileName :=
  if isAbsolute path then steps (utf8Bytes path) else directory ++ steps (utf8Bytes path)

def fileName? (path : String) : Option FileName :=
  match ((steps (utf8Bytes path)).filter (· ≠ FileName.here)).getLast? with
  | some name => if name = .up then none else some name
  | none => none

end Path
end HookEvents
