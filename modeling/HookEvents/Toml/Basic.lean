namespace HookEvents

inductive Toml where
  | text (s : String)
  | integer (n : Int)
  | float (literal : String)
  | bool (b : Bool)
  | moment (literal : String)
  | array (items : List Toml)
  | table (entries : List (String × Toml))
  deriving Inhabited, Repr

namespace Toml

/-- How a table came to be, which decides what may be added to it. -/
inductive Origin where
  | header
  /-- The header of a table inside it names it. -/
  | implied
  | dotted
  deriving DecidableEq, Repr, Inhabited

/-- A value of a document that is still read. Only tables, and the last of an array of tables, can
still grow. -/
inductive Draft where
  | closed (value : Toml)
  | table (origin : Origin) (entries : List (String × Draft))
  | tables (earlier : List Toml) (last : List (String × Draft))
  deriving Inhabited

namespace Draft

mutual

def finish : Draft → Toml
  | .closed value => value
  | .table _ entries => .table (finishAll entries)
  | .tables earlier last => .array (earlier ++ [.table (finishAll last)])

def finishAll : List (String × Draft) → List (String × Toml)
  | [] => []
  | (key, draft) :: entries => (key, draft.finish) :: finishAll entries

end

def replace (key : String) (draft : Draft) (entries : List (String × Draft)) :
    List (String × Draft) :=
  entries.map fun entry => if entry.1 = key then (key, draft) else entry

def remove (key : String) (entries : List (String × Draft)) : List (String × Draft) :=
  entries.filter fun entry => entry.1 ≠ key

/-- Changes the table at the end of a path. Tables on the way are made if they are missing; a dotted
key does not pass through a table that has a header. -/
def descend (dotted : Bool)
    (change : Origin → List (String × Draft) → Option (List (String × Draft))) :
    List String → Origin → List (String × Draft) → Option (List (String × Draft))
  | [], origin, entries => change origin entries
  | key :: path, _, entries =>
    match entries.lookup key with
    | none => do
      let origin := if dotted then Origin.dotted else .implied
      let inner ← descend dotted change path origin []
      return entries ++ [(key, .table origin inner)]
    | some (.table origin inner) => do
      if dotted && origin = .header then none
      else
        let inner ← descend dotted change path origin inner
        return replace key (.table origin inner) entries
    | some (.tables earlier last) => do
      let last ← descend dotted change path .header last
      return replace key (.tables earlier last) entries
    | some (.closed _) => none

/-- Sets a key that is not set yet. A dotted key adds only to tables that dotted keys made. -/
def set (path : List String) (key : String) (value : Toml) (entries : List (String × Draft)) :
    Option (List (String × Draft)) :=
  descend true (fun origin inner =>
    if (!path.isEmpty && origin ≠ .dotted) || (inner.lookup key).isSome then none
    else some (inner ++ [(key, .closed value)])) path .header entries

end Draft

structure Header where
  path : List String
  key : String
  repeated : Bool

/-- A document up to some line: what is complete, and the table of the current header. -/
structure Document where
  root : List (String × Draft) := []
  current : List (String × Draft) := []
  header : Option Header := none

namespace Document

def close (document : Document) : Option (List (String × Draft)) :=
  match document.header with
  | none => some document.current
  | some header =>
    Draft.descend false (fun _ entries =>
      if header.repeated then
        match entries.lookup header.key with
        | none => some (entries ++ [(header.key, .tables [] document.current)])
        | some (.tables earlier last) =>
          some (Draft.replace header.key
            (.tables (earlier ++ [.table (Draft.finishAll last)]) document.current) entries)
        | some _ => none
      else some (entries ++ [(header.key, .table .header document.current)]))
      header.path .header document.root

/-- What a header finds at its place: a table that only inner headers have named goes on. -/
def open? (repeated : Bool) : Option Draft → Option (List (String × Draft))
  | none => some []
  | some (.tables _ _) => if repeated then some [] else none
  | some (.table .implied entries) => if repeated then none else some entries
  | some _ => none

def find? : List String → String → List (String × Draft) → Option Draft
  | [], key, entries => entries.lookup key
  | step :: path, key, entries =>
    match entries.lookup step with
    | some (.table _ inner) => find? path key inner
    | some (.tables _ last) => find? path key last
    | _ => none

def begin (document : Document) (header : Header) : Option Document := do
  let root ← document.close
  let current ← open? header.repeated (find? header.path header.key root)
  let root ← Draft.descend false (fun _ entries =>
    some (if header.repeated then entries else Draft.remove header.key entries))
    header.path .header root
  return { root, current, header := some header }

def set (document : Document) (path : List String) (key : String) (value : Toml) :
    Option Document := do
  return { document with current := ← Draft.set path key value document.current }

def finish (document : Document) : Option Toml := do
  return .table (Draft.finishAll (← document.close))

end Document
end Toml
end HookEvents
