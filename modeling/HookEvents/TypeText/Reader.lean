import HookEvents.Text.Blank
import HookEvents.Text.Letter
import HookEvents.TypeText.Basic

namespace HookEvents.TypeText

open Text

def isNameStart (c : Char) : Bool := isAlphabetic c || c = '_' || c = '@'

def isNamePart (c : Char) : Bool := isAlphanumeric c || c = '_'

def readName (cs : List Char) : Option (String × List Char) :=
  match trimStartChars cs with
  | c :: rest =>
    if isNameStart c then
      some (String.ofList (c :: rest.takeWhile isNamePart), rest.dropWhile isNamePart)
    else none
  | [] => none

def eat (expected : Char) (cs : List Char) : Option (List Char) :=
  match trimStartChars cs with
  | c :: rest => if c = expected then some rest else none
  | [] => none

def eatColons (cs : List Char) : Option (List Char) :=
  match trimStartChars cs with
  | ':' :: ':' :: rest => some rest
  | _ => none

mutual

def readSuffixes (type : TypeText) : List Char → Option (TypeText × List Char)
  | [] => some (type, [])
  | c :: cs =>
    if isBlank c then readSuffixes type cs
    else if c = '?' then readSuffixes (.suffixed type .nullable) cs
    else if c = '*' then readSuffixes (.suffixed type .pointer) cs
    else if c = '[' then readRank type 0 cs
    else some (type, c :: cs)

def readRank (type : TypeText) (commas : Nat) : List Char → Option (TypeText × List Char)
  | [] => none
  | c :: cs =>
    if isBlank c then readRank type commas cs
    else if c = ',' then readRank type (commas + 1) cs
    else if c = ']' then readSuffixes (.suffixed type (.array commas)) cs
    else none

end

/-- Why a reader returns nothing: the text lacks what is read, or the fuel is used up. -/
inductive ReadFault where
  | missing
  | noFuel
deriving DecidableEq

abbrev Reading := Except ReadFault

def expected {α : Type} : Option α → Reading α
  | some part => .ok part
  | none => .error .missing

mutual

def readType : Nat → List Char → Reading (TypeText × List Char)
  | 0, _ => .error .noFuel
  | fuel + 1, cs =>
    match eat '(' cs with
    | some rest => do
      let (elements, rest) ← readElements fuel rest
      expected (readSuffixes (.tuple elements) rest)
    | none => do
      let (first, rest) ← expected (readName cs)
      match eatColons rest with
      | some rest =>
        let (name, rest) ← expected (readName rest)
        let (segments, rest) ← readSegments fuel name rest
        expected (readSuffixes (.named (some first) segments) rest)
      | none =>
        let (segments, rest) ← readSegments fuel first rest
        expected (readSuffixes (.named none segments) rest)

def readElements : Nat → List Char → Reading (List (TypeText × Option String) × List Char)
  | 0, _ => .error .noFuel
  | fuel + 1, cs => do
    let (type, rest) ← readType fuel cs
    let (name, rest) := match readName rest with
      | some (name, rest) => (some name, rest)
      | none => (none, rest)
    match eat ',' rest with
    | some rest =>
      let (elements, rest) ← readElements fuel rest
      return ((type, name) :: elements, rest)
    | none =>
      let rest ← expected (eat ')' rest)
      return ([(type, name)], rest)

def readSegments : Nat → String → List Char → Reading (List (String × List TypeText) × List Char)
  | 0, _, _ => .error .noFuel
  | fuel + 1, name, cs => do
    let (arguments, rest) ← match eat '<' cs with
      | some rest => readArguments fuel rest
      | none => .ok ([], cs)
    match eat '.' rest with
    | some rest =>
      let (next, rest) ← expected (readName rest)
      let (segments, rest) ← readSegments fuel next rest
      return ((name, arguments) :: segments, rest)
    | none => return ([(name, arguments)], rest)

def readArguments : Nat → List Char → Reading (List TypeText × List Char)
  | 0, _ => .error .noFuel
  | fuel + 1, cs => do
    let (type, rest) ← readType fuel cs
    match eat ',' rest with
    | some rest =>
      let (arguments, rest) ← readArguments fuel rest
      return (type :: arguments, rest)
    | none =>
      let rest ← expected (eat '>' rest)
      return ([type], rest)

end

def parse? (text : String) : Option TypeText :=
  let cs := text.toList
  match readType (2 * cs.length + 2) cs with
  | .ok (type, rest) => if (trimStartChars rest).isEmpty then some type else none
  | .error _ => none

end HookEvents.TypeText
