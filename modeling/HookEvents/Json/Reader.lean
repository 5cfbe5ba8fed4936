import HookEvents.Json.Basic

/-!
Reading JSON text. Every reader takes the remaining characters and returns what it read together
with the rest, or nothing when the text does not fit.
-/
namespace HookEvents.Json

def isJsonBlank (c : Char) : Bool := c = ' ' || c = '\n' || c = '\t' || c = '\r'

def skipBlanks (cs : List Char) : List Char := cs.dropWhile isJsonBlank

def hexDigit? (c : Char) : Option Nat :=
  if '0' ≤ c && c ≤ '9' then some (c.toNat - 48)
  else if 'a' ≤ c && c ≤ 'f' then some (c.toNat - 87)
  else if 'A' ≤ c && c ≤ 'F' then some (c.toNat - 55)
  else none

def hexUnit? (a b c d : Char) : Option Nat := do
  let a ← hexDigit? a
  let b ← hexDigit? b
  let c ← hexDigit? c
  let d ← hexDigit? d
  return ((a * 16 + b) * 16 + c) * 16 + d

def isHighSurrogate (n : Nat) : Bool := 0xD800 ≤ n && n ≤ 0xDBFF

def isLowSurrogate (n : Nat) : Bool := 0xDC00 ≤ n && n ≤ 0xDFFF

/-- What has been read of a text: its characters backwards, the first half of a surrogate pair that
waits for the second, and whether all halves so far found each other. -/
structure TextState where
  chars : List Char := []
  waiting : Option Nat := none
  paired : Bool := true

namespace TextState

def plain (st : TextState) (c : Char) : TextState :=
  { chars := c :: st.chars, waiting := none, paired := st.paired && st.waiting.isNone }

def unit (st : TextState) (n : Nat) : TextState :=
  match st.waiting with
  | some high =>
    if isLowSurrogate n then
      { st with
        chars := Char.ofNat (0x10000 + (high - 0xD800) * 0x400 + (n - 0xDC00)) :: st.chars
        waiting := none }
    else { st with paired := false }
  | none =>
    if isHighSurrogate n then { st with waiting := some n }
    else if isLowSurrogate n then { st with paired := false }
    else { st with chars := Char.ofNat n :: st.chars }

def value (st : TextState) : Option String :=
  if st.paired && st.waiting.isNone then some (String.ofList st.chars.reverse) else none

end TextState

def escaped? : Char → Option Char
  | '"' => some '"'
  | '\\' => some '\\'
  | '/' => some '/'
  | 'b' => some (Char.ofNat 8)
  | 'f' => some (Char.ofNat 12)
  | 'n' => some '\n'
  | 'r' => some '\r'
  | 't' => some '\t'
  | _ => none

def readText (st : TextState) : List Char → Option (TextState × List Char)
  | [] => none
  | '"' :: cs => some (st, cs)
  | '\\' :: 'u' :: a :: b :: c :: d :: cs =>
    match hexUnit? a b c d with
    | some n => readText (st.unit n) cs
    | none => none
  | '\\' :: e :: cs =>
    match escaped? e with
    | some c => readText (st.plain c) cs
    | none => none
  | c :: cs => if c.toNat < 0x20 || c = '\\' then none else readText (st.plain c) cs

def digitsValue (ds : List Char) : Nat :=
  ds.foldl (fun n d => n * 10 + (d.toNat - 48)) 0

/-- Whether digits times a power of ten lie beyond the largest double. -/
def exceedsDouble (digits : List Char) (exponent : Int) : Bool :=
  let m := digitsValue digits
  let size := (digits.dropWhile (· = '0')).length + exponent
  if m = 0 || size < 300 then false
  else if 400 < size then true
  else
    let bound := Nat.pow 2 1024 - Nat.pow 2 970
    if 0 ≤ exponent then bound ≤ m * Nat.pow 10 exponent.toNat
    else bound * Nat.pow 10 (-exponent).toNat ≤ m

def readExponent (cs : List Char) : Option (Int × List Char × List Char) :=
  let (negative, sign, cs) := match cs with
    | '+' :: cs => (false, ['+'], cs)
    | '-' :: cs => (true, ['-'], cs)
    | cs => (false, [], cs)
  let digits := cs.takeWhile Char.isDigit
  if digits.isEmpty then none
  else
    let n : Int := digitsValue digits
    some (if negative then -n else n, sign ++ digits, cs.dropWhile Char.isDigit)

def readNumber (cs : List Char) : Option (Json × List Char) := do
  let (minus, cs) := match cs with
    | '-' :: cs => (true, cs)
    | cs => (false, cs)
  let whole := cs.takeWhile Char.isDigit
  let cs := cs.dropWhile Char.isDigit
  guard (!whole.isEmpty && (whole.head? ≠ some '0' || whole.length = 1))
  let (fraction, cs) ← match cs with
    | '.' :: cs =>
      let digits := cs.takeWhile Char.isDigit
      if digits.isEmpty then none else some (some digits, cs.dropWhile Char.isDigit)
    | cs => some (none, cs)
  let (exponent, cs) ← match cs with
    | e :: cs =>
      if e = 'e' || e = 'E' then
        (readExponent cs).map fun (n, written, cs) => (some (n, e :: written), cs)
      else some (none, e :: cs)
    | [] => some (none, [])
  let digits := whole ++ fraction.getD []
  let power := (exponent.map (·.1)).getD 0 - ((fraction.map List.length).getD 0 : Nat)
  let literal := (if minus then ['-'] else []) ++ whole
    ++ (match fraction with | some ds => '.' :: ds | none => [])
    ++ (match exponent with | some (_, written) => written | none => [])
  if !minus && fraction.isNone && exponent.isNone && digitsValue whole < Nat.pow 2 64 then
    return (.natural (digitsValue whole), cs)
  else if exceedsDouble digits power then return (.broken, cs)
  else return (.number (String.ofList literal), cs)

mutual

/-- One value after blanks; every call uses up one unit of fuel. -/
def readValue : Nat → List Char → Option (Json × List Char)
  | 0, _ => none
  | fuel + 1, cs =>
    match skipBlanks cs with
    | 'n' :: 'u' :: 'l' :: 'l' :: cs => some (.null, cs)
    | 't' :: 'r' :: 'u' :: 'e' :: cs => some (.bool true, cs)
    | 'f' :: 'a' :: 'l' :: 's' :: 'e' :: cs => some (.bool false, cs)
    | '"' :: cs =>
      match readText {} cs with
      | some (st, cs) => some ((st.value.map Json.text).getD .broken, cs)
      | none => none
    | '[' :: cs =>
      match skipBlanks cs with
      | ']' :: cs => some (.array [], cs)
      | cs => (readItems fuel cs).map fun (items, cs) => (.array items, cs)
    | '{' :: cs =>
      match skipBlanks cs with
      | '}' :: cs => some (.object [], cs)
      | cs => (readEntries fuel cs).map fun (entries, cs) => (.object entries, cs)
    | cs => readNumber cs

def readItems : Nat → List Char → Option (List Json × List Char)
  | 0, _ => none
  | fuel + 1, cs =>
    match readValue fuel cs with
    | none => none
    | some (item, cs) =>
      match skipBlanks cs with
      | ']' :: cs => some ([item], cs)
      | ',' :: cs => (readItems fuel cs).map fun (items, cs) => (item :: items, cs)
      | _ => none

def readEntries : Nat → List Char → Option (List (String × Json) × List Char)
  | 0, _ => none
  | fuel + 1, cs =>
    match skipBlanks cs with
    | '"' :: cs =>
      match readText {} cs with
      | none => none
      | some (st, cs) =>
        match st.value, skipBlanks cs with
        | some key, ':' :: cs =>
          match readValue fuel cs with
          | none => none
          | some (item, cs) =>
            match skipBlanks cs with
            | '}' :: cs => some ([(key, item)], cs)
            | ',' :: cs =>
              (readEntries fuel cs).map fun (entries, cs) => ((key, item) :: entries, cs)
            | _ => none
        | _, _ => none
    | _ => none

end

def parse (s : String) : Option Json :=
  let cs := s.toList
  match readValue (2 * cs.length + 1) cs with
  | some (value, rest) => if (skipBlanks rest).isEmpty then some value else none
  | none => none

end HookEvents.Json
