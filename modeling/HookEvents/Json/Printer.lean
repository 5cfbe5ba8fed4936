import HookEvents.Json.Basic

namespace HookEvents.Json

def lowerHex (n : Nat) : Char := Char.ofNat (if n < 10 then 48 + n else 87 + n)

def escapeChar (c : Char) : List Char :=
  if c = '"' then ['\\', '"']
  else if c = '\\' then ['\\', '\\']
  else if c = '\n' then ['\\', 'n']
  else if c = '\r' then ['\\', 'r']
  else if c = '\t' then ['\\', 't']
  else if c.toNat = 8 then ['\\', 'b']
  else if c.toNat = 12 then ['\\', 'f']
  else if c.toNat < 0x20 then
    ['\\', 'u', '0', '0', lowerHex (c.toNat / 16), lowerHex (c.toNat % 16)]
  else [c]

def quote (s : String) : List Char := '"' :: s.toList.flatMap escapeChar ++ ['"']

def scalarChars : Json → List Char
  | .bool true => "true".toList
  | .bool false => "false".toList
  | .natural n => (Nat.repr n).toList
  | .number literal => literal.toList
  | .text s => quote s
  | _ => "null".toList

mutual

def compactChars : Json → List Char
  | .array items => '[' :: compactItems items ++ [']']
  | .object entries => '{' :: compactEntries entries ++ ['}']
  | scalar => scalarChars scalar

def compactItems : List Json → List Char
  | [] => []
  | [item] => compactChars item
  | item :: items => compactChars item ++ ',' :: compactItems items

def compactEntries : List (String × Json) → List Char
  | [] => []
  | [(key, item)] => quote key ++ ':' :: compactChars item
  | (key, item) :: entries =>
    quote key ++ ':' :: compactChars item ++ ',' :: compactEntries entries

end

def newline (level : Nat) : List Char := '\n' :: List.replicate (2 * level) ' '

mutual

def prettyChars (level : Nat) : Json → List Char
  | .array [] => ['[', ']']
  | .array items => '[' :: prettyItems (level + 1) items ++ newline level ++ [']']
  | .object [] => ['{', '}']
  | .object entries => '{' :: prettyEntries (level + 1) entries ++ newline level ++ ['}']
  | scalar => scalarChars scalar

def prettyItems (level : Nat) : List Json → List Char
  | [] => []
  | [item] => newline level ++ prettyChars level item
  | item :: items => newline level ++ prettyChars level item ++ ',' :: prettyItems level items

def prettyEntries (level : Nat) : List (String × Json) → List Char
  | [] => []
  | [(key, item)] => newline level ++ quote key ++ ':' :: ' ' :: prettyChars level item
  | (key, item) :: entries =>
    newline level ++ quote key ++ ':' :: ' ' :: prettyChars level item
      ++ ',' :: prettyEntries level entries

end

def compact (value : Json) : String := String.ofList (compactChars value)

def pretty (value : Json) : String := String.ofList (prettyChars 0 value)

end HookEvents.Json
