import HookEvents.Text.Split

/-!
Writing TOML. A text is written in the plainest of four forms that can hold it.
-/
namespace HookEvents.Toml

open Text

def needsEscape (c : Char) : Bool :=
  (c.toNat < 0x20 && c ≠ '\t' && c ≠ '\n') || c.toNat = 0x7F

def longestRun (quote : Char) : Nat → Nat → List Char → Nat
  | _, best, [] => best
  | run, best, c :: cs =>
    if c = quote then longestRun quote (run + 1) (max best (run + 1)) cs
    else longestRun quote 0 best cs

inductive TextForm where
  | basic
  | literal
  | basicLines
  | literalLines
  deriving DecidableEq, Repr, Inhabited

def textForm (cs : List Char) : TextForm :=
  let backslash := cs.contains '\\'
  let control := cs.any needsEscape
  let newline := cs.contains '\n'
  let double := longestRun '"' 0 0 cs
  let single := longestRun '\'' 0 0 cs
  if !backslash && !control && double = 0 && !newline then .basic
  else if !control && single = 0 && !newline then .literal
  else if !backslash && !control && double ≤ 2 then .basicLines
  else if !control && single ≤ 2 then .literalLines
  else if newline then .basicLines
  else .basic

def hexDigit (n : Nat) : Char :=
  if n < 10 then Char.ofNat ('0'.toNat + n) else Char.ofNat ('A'.toNat + (n - 10))

def unicodeEscape (c : Char) : List Char :=
  let n := c.toNat
  ['\\', 'u', hexDigit (n / 4096 % 16), hexDigit (n / 256 % 16), hexDigit (n / 16 % 16),
    hexDigit (n % 16)]

/-- A character inside double quotes, after `quotes` of them in a row. Over several lines line
breaks stay, and of three quotes the last is escaped. -/
def escapeChar (lines : Bool) (quotes : Nat) (c : Char) : List Char :=
  if c = '"' then if lines && quotes < 2 then ['"'] else ['\\', '"']
  else if c = '\\' then ['\\', '\\']
  else if c = '\n' then if lines then ['\n'] else ['\\', 'n']
  else if c = '\t' then ['\\', 't']
  else if c = '\r' then ['\\', 'r']
  else if c.toNat = 0x08 then ['\\', 'b']
  else if c.toNat = 0x0C then ['\\', 'f']
  else if needsEscape c then unicodeEscape c
  else [c]

def escapeChars (lines : Bool) : Nat → List Char → List Char
  | _, [] => []
  | quotes, c :: cs =>
    let run := if c = '"' then if lines && quotes < 2 then quotes + 1 else 0 else 0
    escapeChar lines quotes c ++ escapeChars lines run cs

/-- Text with its quotes. Over several lines a line break follows the opening quotes if there is
one inside. -/
def renderText (s : String) : String :=
  let cs := s.toList
  let start := if cs.contains '\n' then "\n" else ""
  match textForm cs with
  | .basic => "\"" ++ String.ofList (escapeChars false 0 cs) ++ "\""
  | .literal => "'" ++ s ++ "'"
  | .basicLines => "\"\"\"" ++ start ++ String.ofList (escapeChars true 0 cs) ++ "\"\"\""
  | .literalLines => "'''" ++ start ++ s ++ "'''"

def renderBool (b : Bool) : String := if b then "true" else "false"

def renderTexts (items : List String) : String :=
  match items with
  | [] => "[]"
  | [item] => "[" ++ renderText item ++ "]"
  | items => "[\n" ++ String.join (items.map fun item => "    " ++ renderText item ++ ",\n") ++ "]"

def renderTable (name : String) (entries : List (String × String)) : String :=
  "[" ++ name ++ "]\n" ++ String.join (entries.map fun (key, value) => key ++ " = " ++ value ++ "\n")

end HookEvents.Toml
