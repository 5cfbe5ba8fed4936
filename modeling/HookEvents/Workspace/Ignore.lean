import HookEvents.Text.Blank
import HookEvents.Workspace.FileSystem
import HookEvents.Workspace.Glob

/-!
Ignore files. In each sort of file the deepest directory decides and there the last line that fits;
one sort goes before another.
-/
namespace HookEvents

open Text

structure IgnoreRule where
  /-- Whether what fits is kept and not ignored. -/
  keeps : Bool := false
  directoriesOnly : Bool := false
  parts : List GlobPart

inductive IgnoreVerdict where
  | ignored
  | kept
  deriving DecidableEq, Repr, Inhabited

namespace IgnoreRule

/-- The pattern for the whole path: without a slash it may stand at any depth, and what ends in
`/**` does not mean the directory itself. -/
def fullPattern (anchored : Bool) (pattern : String) : String :=
  let free := !anchored && !pattern.toList.contains '/'
  let pattern :=
    if free && !(startsWith "**/" pattern || pattern = "**") then "**/" ++ pattern else pattern
  if endsWith "/**" pattern then pattern ++ "/*" else pattern

def dropSlash (pattern : String) : Bool × String :=
  match pattern.toList.reverse with
  | '/' :: '\\' :: rest => (true, String.ofList rest.reverse)
  | '/' :: rest => (true, String.ofList rest.reverse)
  | _ => (false, pattern)

def ofLine? (line : String) : Option IgnoreRule := do
  guard (!startsWith "#" line)
  let line := if endsWith "\\ " line then line else trimEnd line
  guard (line ≠ "")
  let escaped := startsWith "\\!" line || startsWith "\\#" line
  let (keeps, pattern) :=
    if escaped then (false, (dropStart "\\" line).getD line)
    else match dropStart "!" line with
      | some rest => (true, rest)
      | none => (false, line)
  let (anchored, pattern) :=
    match if escaped then none else dropStart "/" pattern with
    | some rest => (true, rest)
    | none => (false, pattern)
  let (directoriesOnly, pattern) := dropSlash pattern
  let parts ← Glob.parse? (fullPattern anchored pattern)
  return { keeps, directoriesOnly, parts }

def verdict (rule : IgnoreRule) : IgnoreVerdict := if rule.keeps then .kept else .ignored

def fits (rule : IgnoreRule) (path : List UInt8) (isDirectory : Bool) : Bool :=
  (isDirectory || !rule.directoriesOnly) && Glob.isMatch rule.parts path

def decide? (rules : List IgnoreRule) (path : List UInt8) (isDirectory : Bool) :
    Option IgnoreVerdict :=
  (rules.reverse.find? (·.fits path isDirectory)).map verdict

def ofContent (content : FileContent) : List IgnoreRule :=
  let lines := content.lines.map (dropEndWhile '\r')
  let lines := match lines with
    | first :: rest => dropStartWhile '\uFEFF' first :: rest
    | [] => []
  lines.filterMap ofLine?

end IgnoreRule

structure IgnoreLevel where
  depth : Nat
  own : List IgnoreRule := []
  general : List IgnoreRule := []
  git : List IgnoreRule := []
  gitExclude : List IgnoreRule := []
  isRepository : Bool := false

namespace IgnoreLevel

def rulesIn (files : FileSystem) (location : List FileName) : List IgnoreRule :=
  ((files.read? location).map IgnoreRule.ofContent).getD []

def repositoryName : FileName := ".git"

def ofDirectory (files : FileSystem) (location : List FileName) : IgnoreLevel :=
  let rules (path : List FileName) := rulesIn files (location ++ path)
  { depth := location.length
    own := rules [".hookgenignore"]
    general := rules [".ignore"]
    git := rules [".gitignore"]
    gitExclude := rules [repositoryName, "info", "exclude"]
    isRepository := files.isThere (location ++ [repositoryName]) }

/-- The levels above a directory, deepest first. -/
def above (files : FileSystem) (location : List FileName) : List IgnoreLevel :=
  ((List.range location.length).map fun n => ofDirectory files (location.take n)).reverse

def inRepository : List IgnoreLevel → List IgnoreLevel
  | [] => []
  | level :: levels =>
    if level.isRepository then [level]
    else match inRepository levels with
      | [] => []
      | inner => level :: inner

def decideIn (select : IgnoreLevel → List IgnoreRule) (location : List FileName)
    (isDirectory : Bool) (levels : List IgnoreLevel) : Option IgnoreVerdict :=
  levels.findSome? fun level =>
    IgnoreRule.decide? (select level) (Path.bytes (location.drop level.depth)) isDirectory

def decide? (levels : List IgnoreLevel) (location : List FileName) (isDirectory : Bool) :
    Option IgnoreVerdict :=
  let repository := inRepository levels
  (decideIn own location isDirectory levels)
    |>.or (decideIn general location isDirectory levels)
    |>.or (decideIn git location isDirectory repository)
    |>.or (decideIn gitExclude location isDirectory repository)

end IgnoreLevel
end HookEvents
