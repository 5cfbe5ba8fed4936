import HookEvents.Toml.Basic

/-!
The texts, numbers and moments of TOML. Each reader returns the value and what follows it.
-/
namespace HookEvents.Toml

def isBlank (c : Char) : Bool := c = ' ' || c = '\t'

def isPlain (c : Char) : Bool := c = '\t' || (0x20 ≤ c.toNat && c.toNat ≠ 0x7F)

def dropNewline : List Char → Option (List Char)
  | '\n' :: cs => some cs
  | '\r' :: '\n' :: cs => some cs
  | _ => none

def digit? (base : Nat) (c : Char) : Option Nat :=
  let value :=
    if c.isDigit then c.toNat - '0'.toNat
    else if 'a' ≤ c && c ≤ 'f' then c.toNat - 'a'.toNat + 10
    else if 'A' ≤ c && c ≤ 'F' then c.toNat - 'A'.toNat + 10
    else 16
  if value < base then some value else none

def number? (base : Nat) (cs : List Char) : Option Nat :=
  cs.foldlM (fun n c => (digit? base c).map (base * n + ·)) 0

def codePoint? (length : Nat) (cs : List Char) : Option (Char × List Char) := do
  let digits := cs.take length
  guard (digits.length = length)
  let n ← number? 16 digits
  guard (n < 0xD800 || (0xDFFF < n && n < 0x110000))
  return (Char.ofNat n, cs.drop length)

def escape? : List Char → Option (Char × List Char)
  | 'b' :: cs => some ('\x08', cs)
  | 't' :: cs => some ('\t', cs)
  | 'n' :: cs => some ('\n', cs)
  | 'f' :: cs => some ('\x0c', cs)
  | 'r' :: cs => some ('\r', cs)
  | 'e' :: cs => some ('\x1b', cs)
  | '"' :: cs => some ('"', cs)
  | '\\' :: cs => some ('\\', cs)
  | 'x' :: cs => codePoint? 2 cs
  | 'u' :: cs => codePoint? 4 cs
  | 'U' :: cs => codePoint? 8 cs
  | _ => none

def readBasic : Nat → List Char → List Char → Option (String × List Char)
  | 0, _, _ => none
  | _ + 1, _, [] => none
  | fuel + 1, taken, c :: cs =>
    if c = '"' then some (String.ofList taken.reverse, cs)
    else if c = '\\' then
      match escape? cs with
      | some (d, cs) => readBasic fuel (d :: taken) cs
      | none => none
    else if isPlain c then readBasic fuel (c :: taken) cs
    else none

def readLiteral (taken : List Char) : List Char → Option (String × List Char)
  | [] => none
  | c :: cs =>
    if c = '\'' then some (String.ofList taken.reverse, cs)
    else if isPlain c then readLiteral (c :: taken) cs
    else none

def quotesAt (quote : Char) (cs : List Char) : Nat := (cs.takeWhile (· = quote)).length

/-- Text on several lines, after its opening quotes. Up to two quotes may stand before the three
that end it. -/
def readLines (quote : Char) : Nat → List Char → List Char → Option (String × List Char)
  | 0, _, _ => none
  | _ + 1, _, [] => none
  | fuel + 1, taken, c :: cs =>
    if c = quote then
      let quotes := quotesAt quote (c :: cs)
      let rest := (c :: cs).drop quotes
      if quotes < 3 then readLines quote fuel (List.replicate quotes quote ++ taken) rest
      else if quotes ≤ 5 then
        some (String.ofList (List.replicate (quotes - 3) quote ++ taken).reverse, rest)
      else none
    else if c = '\\' && quote = '"' then
      match dropNewline (cs.dropWhile isBlank) with
      | some rest =>
        -- a line break after a backslash is dropped with all blanks that follow
        readLines quote fuel taken (rest.dropWhile fun d => isBlank d || d = '\n' || d = '\r')
      | none =>
        match escape? cs with
        | some (d, cs) => readLines quote fuel (d :: taken) cs
        | none => none
    else if c = '\r' then
      if cs.head? = some '\n' then readLines quote fuel (c :: taken) cs else none
    else if c = '\n' || isPlain c then readLines quote fuel (c :: taken) cs
    else none

def readText? (cs : List Char) : Option (String × List Char) :=
  let several (quote : Char) (cs : List Char) :=
    readLines quote (cs.length + 1) [] ((dropNewline cs).getD cs)
  match cs with
  | '"' :: '"' :: '"' :: cs => several '"' cs
  | '\'' :: '\'' :: '\'' :: cs => several '\'' cs
  | '"' :: cs => readBasic (cs.length + 1) [] cs
  | '\'' :: cs => readLiteral [] cs
  | _ => none

def digitsOf? (base : Nat) : List Char → Option (List Char)
  | [] => none
  | [c] => (digit? base c).map fun _ => [c]
  | c :: '_' :: cs => do
    let _ ← digit? base c
    return c :: (← digitsOf? base cs)
  | c :: cs => do
    let _ ← digit? base c
    return c :: (← digitsOf? base cs)

def dropSign : List Char → Bool × List Char
  | '-' :: cs => (true, cs)
  | '+' :: cs => (false, cs)
  | cs => (false, cs)

def decimal? (cs : List Char) : Option Nat := do
  let digits ← digitsOf? 10 cs
  guard (digits.length = 1 || digits.head? ≠ some '0')
  number? 10 digits

def integer? (cs : List Char) : Option Int :=
  match cs with
  | '0' :: 'x' :: cs => (digitsOf? 16 cs).bind (number? 16) |>.map Int.ofNat
  | '0' :: 'o' :: cs => (digitsOf? 8 cs).bind (number? 8) |>.map Int.ofNat
  | '0' :: 'b' :: cs => (digitsOf? 2 cs).bind (number? 2) |>.map Int.ofNat
  | _ =>
    let (negative, cs) := dropSign cs
    (decimal? cs).map fun n => if negative then -Int.ofNat n else Int.ofNat n

def isExponent (cs : List Char) : Bool := (digitsOf? 10 (dropSign cs).2).isSome

def isFloat (cs : List Char) : Bool :=
  let (_, cs) := dropSign cs
  let isMark (c : Char) : Bool := c = 'e' || c = 'E'
  let mantissa := cs.takeWhile (!isMark ·)
  let exponent := cs.drop mantissa.length
  let whole := mantissa.takeWhile (· ≠ '.')
  let fraction := mantissa.drop whole.length
  cs = ['i', 'n', 'f'] || cs = ['n', 'a', 'n'] ||
    ((decimal? whole).isSome &&
      (fraction.isEmpty || (digitsOf? 10 (fraction.drop 1)).isSome) &&
      (exponent.isEmpty || isExponent (exponent.drop 1)) &&
      !(fraction.isEmpty && exponent.isEmpty))

def fixed? (length low high : Nat) (cs : List Char) : Option (Nat × List Char) := do
  let digits := cs.take length
  guard (digits.length = length)
  let n ← number? 10 digits
  guard (low ≤ n && n ≤ high)
  return (n, cs.drop length)

def eat? (expected : Char) : List Char → Option (List Char)
  | c :: cs => if c = expected then some cs else none
  | [] => none

def daysIn (year month : Nat) : Nat :=
  if month = 2 then
    if year % 4 = 0 && (year % 100 ≠ 0 || year % 400 = 0) then 29 else 28
  else if [4, 6, 9, 11].contains month then 30
  else 31

def dropDate? (cs : List Char) : Option (List Char) := do
  let (year, cs) ← fixed? 4 0 9999 cs
  let (month, cs) ← fixed? 2 1 12 (← eat? '-' cs)
  let (_, cs) ← fixed? 2 1 (daysIn year month) (← eat? '-' cs)
  return cs

def dropTime? (cs : List Char) : Option (List Char) := do
  let (_, cs) ← fixed? 2 0 23 cs
  let (_, cs) ← fixed? 2 0 59 (← eat? ':' cs)
  match eat? ':' cs with
  | none => return cs
  | some cs =>
    let (_, cs) ← fixed? 2 0 60 cs
    match eat? '.' cs with
    | none => return cs
    | some cs =>
      guard (cs.head?.any Char.isDigit)
      return cs.dropWhile Char.isDigit

def dropOffset? (cs : List Char) : Option (List Char) :=
  match cs with
  | 'Z' :: cs => some cs
  | 'z' :: cs => some cs
  | c :: rest =>
    if c = '+' || c = '-' then do
      let (_, cs) ← fixed? 2 0 23 rest
      let (_, cs) ← fixed? 2 0 59 (← eat? ':' cs)
      return cs
    else some (c :: rest)
  | [] => some []

def isMoment (cs : List Char) : Bool :=
  match dropDate? cs with
  | some [] => true
  | some (c :: rest) =>
    (c = 'T' || c = 't' || c = ' ') && ((dropTime? rest).bind dropOffset?) = some []
  | none => dropTime? cs = some []

def scalar? (cs : List Char) : Option Toml :=
  if cs = "true".toList then some (.bool true)
  else if cs = "false".toList then some (.bool false)
  else match integer? cs with
    | some n => some (.integer n)
    | none =>
      if isFloat cs then some (.float (String.ofList cs))
      else if isMoment cs then some (.moment (String.ofList cs))
      else none

def isScalarPart (c : Char) : Bool :=
  c.isAlphanum || c = '_' || c = '+' || c = '-' || c = '.' || c = ':'

/-- The characters of a scalar. A blank between a date and a time belongs to it. -/
def takeScalar (cs : List Char) : List Char × List Char :=
  let first := cs.takeWhile isScalarPart
  let rest := cs.drop first.length
  match rest with
  | ' ' :: c :: _ =>
    if c.isDigit && dropDate? first = some [] then
      let second := (rest.drop 1).takeWhile isScalarPart
      (first ++ ' ' :: second, rest.drop (second.length + 1))
    else (first, rest)
  | _ => (first, rest)

end HookEvents.Toml
