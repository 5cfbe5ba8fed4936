import HookEvents.Toml.Literal

namespace HookEvents.Toml

def dropComment (cs : List Char) : Option (List Char) :=
  match cs with
  | '#' :: rest =>
    let rest := rest.dropWhile isPlain
    if rest.isEmpty || (dropNewline rest).isSome then some rest else none
  | _ => some cs

def dropFiller : Nat → List Char → Option (List Char)
  | 0, cs => some cs
  | fuel + 1, cs => do
    let rest ← dropComment (cs.dropWhile isBlank)
    match dropNewline rest with
    | some rest => dropFiller fuel rest
    | none => return rest

def isBareKeyPart (c : Char) : Bool := c.isAlphanum || c = '_' || c = '-'

def readSimpleKey (cs : List Char) : Option (String × List Char) :=
  match cs with
  | '"' :: rest => readBasic (rest.length + 1) [] rest
  | '\'' :: rest => readLiteral [] rest
  | _ =>
    let key := cs.takeWhile isBareKeyPart
    if key.isEmpty then none else some (String.ofList key, cs.drop key.length)

def readKey : Nat → List Char → Option (List String × String × List Char)
  | 0, _ => none
  | fuel + 1, cs => do
    let (key, rest) ← readSimpleKey (cs.dropWhile isBlank)
    let rest := rest.dropWhile isBlank
    match rest with
    | '.' :: rest =>
      let (path, last, rest) ← readKey fuel rest
      return (key :: path, last, rest)
    | _ => return ([], key, rest)

def depthLimit : Nat := 80

mutual

def readValue : Nat → Nat → List Char → Option (Toml × List Char)
  | 0, _, _ => none
  | fuel + 1, depth, cs =>
    match cs with
    | '[' :: rest =>
      if depth < depthLimit then
        (readItems fuel (depth + 1) rest).map fun (items, rest) => (.array items, rest)
      else none
    | '{' :: rest =>
      if depth < depthLimit then
        (readEntries fuel (depth + 1) [] rest).map fun (entries, rest) =>
          (.table (Draft.finishAll entries), rest)
      else none
    | '"' :: _ => (readText? cs).map fun (s, rest) => (.text s, rest)
    | '\'' :: _ => (readText? cs).map fun (s, rest) => (.text s, rest)
    | _ =>
      let (literal, rest) := takeScalar cs
      (scalar? literal).map fun value => (value, rest)

def readItems : Nat → Nat → List Char → Option (List Toml × List Char)
  | 0, _, _ => none
  | fuel + 1, depth, cs => do
    let cs ← dropFiller fuel cs
    match cs with
    | ']' :: rest => return ([], rest)
    | _ =>
      let (item, rest) ← readValue fuel depth cs
      let rest ← dropFiller fuel rest
      match rest with
      | ',' :: rest =>
        let (items, rest) ← readItems fuel depth rest
        return (item :: items, rest)
      | ']' :: rest => return ([item], rest)
      | _ => none

def readEntries : Nat → Nat → List (String × Draft) → List Char →
    Option (List (String × Draft) × List Char)
  | 0, _, _, _ => none
  | fuel + 1, depth, entries, cs => do
    let cs ← dropFiller fuel cs
    match cs with
    | '}' :: rest => return (entries, rest)
    | _ =>
      let (path, key, rest) ← readKey fuel cs
      let rest ← eat? '=' rest
      let (value, rest) ← readValue fuel depth (rest.dropWhile isBlank)
      let entries ← Draft.set path key value entries
      let rest ← dropFiller fuel rest
      match rest with
      | ',' :: rest => readEntries fuel depth entries rest
      | '}' :: rest => return (entries, rest)
      | _ => none

end

def endLine (cs : List Char) : Option (List Char) := do
  let rest ← dropComment (cs.dropWhile isBlank)
  if rest.isEmpty then return [] else dropNewline rest

def readHeader (repeated : Bool) (cs : List Char) : Option (Header × List Char) := do
  let (path, key, rest) ← readKey (cs.length + 1) cs
  let rest ← eat? ']' rest
  let rest ← if repeated then eat? ']' rest else some rest
  return ({ path, key, repeated }, rest)

def readDocument : Nat → Document → List Char → Option Document
  | 0, _, _ => none
  | fuel + 1, document, cs => do
    let cs := cs.dropWhile isBlank
    match cs with
    | [] => return document
    | '[' :: '[' :: rest =>
      let (header, rest) ← readHeader true rest
      readDocument fuel (← document.begin header) (← endLine rest)
    | '[' :: rest =>
      let (header, rest) ← readHeader false rest
      readDocument fuel (← document.begin header) (← endLine rest)
    | c :: rest =>
      if c = '#' || (dropNewline (c :: rest)).isSome then
        readDocument fuel document (← endLine (c :: rest))
      else
        let (path, key, rest) ← readKey (cs.length + 1) cs
        let rest ← eat? '=' rest
        let (value, rest) ← readValue (2 * cs.length + 2) 0 (rest.dropWhile isBlank)
        readDocument fuel (← document.set path key value) (← endLine rest)

/-- The table that a document describes. A byte order mark at the start is skipped. -/
def parse? (source : String) : Option Toml := do
  let cs := source.toList
  let cs := if cs.head?.any (·.toNat = 0xFEFF) then cs.drop 1 else cs
  (← readDocument (cs.length + 1) {} cs).finish

end HookEvents.Toml
