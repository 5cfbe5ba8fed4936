import HookEvents.Workspace.Path

/-!
Glob patterns over the bytes of a path. A star does not cross a slash, and two of them between
slashes stand for any number of directories.
-/
namespace HookEvents

inductive GlobPart where
  | literal (bytes : List UInt8)
  | any
  | star
  /-- Any directories at the start. -/
  | leadingDirectories
  /-- Anything below, at the end. -/
  | contents
  /-- Any directories between two names. -/
  | directories
  | oneOf (negated : Bool) (ranges : List (UInt8 × UInt8))
  | choice (branches : List (List GlobPart))
  deriving Inhabited, Repr

namespace Glob

open HookEvents.Path (slash)

def utf8 (c : Char) : List UInt8 := c.toString.toUTF8.toList

inductive ClassText where
  | closed (ranges : List (Char × Char)) (rest : List Char)
  | unclosed
  | invalid

def extendRange (upper : Char) : List (Char × Char) → Option (List (Char × Char))
  | (lower, _) :: ranges => if upper < lower then none else some ((lower, upper) :: ranges)
  | [] => none

/-- Reads a set of characters; the ranges are kept backwards. -/
def readClass (first inRange : Bool) (ranges : List (Char × Char)) : List Char → ClassText
  | [] => .unclosed
  | c :: cs =>
    if c = ']' && !first then
      .closed (if inRange then (('-', '-') :: ranges).reverse else ranges.reverse) cs
    else if c = '-' && !first && !inRange then readClass false true ranges cs
    else if inRange then
      match extendRange c ranges with
      | some ranges => readClass false false ranges cs
      | none => .invalid
    else readClass false false ((c, c) :: ranges) cs

/-- The bytes that a range of characters admits. Of longer encodings each byte counts by itself. -/
def byteRanges (range : Char × Char) : List (UInt8 × UInt8) :=
  let single (b : UInt8) : UInt8 × UInt8 := (b, b)
  let lower := utf8 range.1
  let upper := utf8 range.2
  if range.1 = range.2 then lower.map single
  else lower.dropLast.map single ++ [(lower.getLastD 0, upper.headD 0)] ++ (upper.drop 1).map single

/-- A group in braces that is still open: its finished branches and the parts before it, backwards. -/
structure OpenChoice where
  branches : List (List GlobPart)
  before : List GlobPart

def readStars (previous : Option Char) (nested : Bool) (current : List GlobPart) (cs : List Char) :
    List GlobPart × List Char :=
  let plain := (.star :: .star :: current, cs)
  let next := cs.head?
  if current.isEmpty then
    if next = none || next = some '/' then ([.leadingDirectories], cs.drop 1) else plain
  else if previous ≠ some '/' && !(nested && (previous = some ',' || previous = some '{')) then plain
  else
    let closing := next = none || (nested && (next = some ',' || next = some '}'))
    if !closing && next ≠ some '/' then plain
    else
      let rest := if closing then cs else cs.drop 1
      match current with
      | .leadingDirectories :: _ => (current, rest)
      | .contents :: _ => (current, rest)
      | _ :: before => ((if closing then .contents else .directories) :: before, rest)
      | [] => plain

/-- Reads a pattern. The parts of the current branch are kept backwards, the open groups innermost
first; after a bracket that nothing closes, brackets stand for themselves. -/
def readParts : Nat → Option Char → Bool → List OpenChoice → List GlobPart → List Char →
    Option (List GlobPart)
  | 0, _, _, _, _, _ => none
  | _ + 1, _, _, groups, current, [] => if groups.isEmpty then some current.reverse else none
  | fuel + 1, previous, unclosed, groups, current, c :: cs =>
    let continueWith (current : List GlobPart) (cs : List Char) : Option (List GlobPart) :=
      readParts fuel (some c) unclosed groups current cs
    let plain := continueWith (.literal (utf8 c) :: current) cs
    if c = '?' then continueWith (.any :: current) cs
    else if c = '*' then
      match cs with
      | '*' :: rest =>
        let (parts, after) := readStars previous (!groups.isEmpty) current rest
        let last := if after.length < rest.length then '/' else '*'
        readParts fuel (some last) unclosed groups parts after
      | _ => continueWith (.star :: current) cs
    else if c = '[' && !unclosed then
      let negated := cs.head? = some '!' || cs.head? = some '^'
      match readClass true false [] (if negated then cs.drop 1 else cs) with
      | .closed ranges rest =>
        readParts fuel (some ']') unclosed groups
          (.oneOf negated (ranges.map byteRanges).flatten :: current) rest
      | .unclosed => readParts fuel (some c) true groups (.literal (utf8 c) :: current) cs
      | .invalid => none
    else if c = '{' then readParts fuel (some c) unclosed (⟨[], current⟩ :: groups) [] cs
    else if c = '}' then
      match groups with
      | group :: groups =>
        let branches := (current.reverse :: group.branches).reverse.filter (!·.isEmpty)
        let parts := if branches.isEmpty then group.before else .choice branches :: group.before
        readParts fuel (some c) unclosed groups parts cs
      | [] => none
    else if c = ',' then
      match groups with
      | group :: groups =>
        readParts fuel (some c) unclosed
          ({ group with branches := current.reverse :: group.branches } :: groups) [] cs
      | [] => plain
    else if c = '\\' then
      match cs with
      | d :: rest => readParts fuel (some d) unclosed groups (.literal (utf8 d) :: current) rest
      | [] => none
    else plain

def parse? (pattern : String) : Option (List GlobPart) :=
  let cs := pattern.toList
  readParts (cs.length + 1) none false [] [] cs

def beforeSlash : List UInt8 → List (List UInt8)
  | [] => [[]]
  | b :: bytes => (b :: bytes) :: (if b = slash then [] else beforeSlash bytes)

def afterSlashes : List UInt8 → List (List UInt8)
  | [] => []
  | b :: bytes => if b = slash then bytes :: afterSlashes bytes else afterSlashes bytes

def suffixes : List UInt8 → List (List UInt8)
  | [] => [[]]
  | b :: bytes => (b :: bytes) :: suffixes bytes

mutual

def rests : GlobPart → List UInt8 → List (List UInt8)
  | .literal expected, bytes =>
    if expected.isPrefixOf bytes then [bytes.drop expected.length] else []
  | .any, bytes =>
    match bytes with
    | b :: rest => if b = slash then [] else [rest]
    | [] => []
  | .star, bytes => beforeSlash bytes
  | .leadingDirectories, bytes => bytes :: afterSlashes bytes
  | .contents, bytes =>
    match bytes with
    | b :: rest => if b = slash then suffixes rest else []
    | [] => []
  | .directories, bytes =>
    match bytes with
    | b :: rest => if b = slash then rest :: afterSlashes rest else []
    | [] => []
  | .oneOf negated ranges, bytes =>
    match bytes with
    | b :: rest =>
      let within := ranges.any fun range => range.1 ≤ b && b ≤ range.2
      if within != negated then [rest] else []
    | [] => []
  | .choice branches, bytes => restsOfAny branches bytes

def restsOfAll : List GlobPart → List UInt8 → List (List UInt8)
  | [], bytes => [bytes]
  | part :: parts, bytes => (rests part bytes).flatMap (restsOfAll parts)

def restsOfAny : List (List GlobPart) → List UInt8 → List (List UInt8)
  | [], _ => []
  | branch :: branches, bytes => restsOfAll branch bytes ++ restsOfAny branches bytes

end

/-- Whether the whole path fits the pattern. Two stars alone fit everything. -/
def isMatch (parts : List GlobPart) (path : List UInt8) : Bool :=
  match parts with
  | [.leadingDirectories] => true
  | _ => (restsOfAll parts path).any List.isEmpty

end Glob
end HookEvents
