import HookEvents.Text.Blank

/-!
The tokens of C# text. A token keeps the blanks, comments and transparent directives before it, so
that the text between any two tokens can be written again.
-/
namespace HookEvents.CSharp

inductive TokenKind where
  | word
  | number
  | text
  | symbol
  | opening
  | closing
  | directive
  deriving DecidableEq, Repr, Inhabited

structure Token where
  kind : TokenKind
  leading : String
  text : String
  deriving DecidableEq, Repr, Inhabited

/-- How a text literal is written: whether a backslash escapes, whether a quote is doubled, or how
many quotes end it. -/
inductive LiteralForm where
  | regular
  | verbatim
  | raw (quotes : Nat)
  deriving DecidableEq, Repr, Inhabited

/-- What the reader is inside of. Holes of an interpolated text open with as many braces as there
are dollars. -/
inductive Frame where
  | bracket
  | literal (form : LiteralForm) (dollars : Nat)
  | hole (form : LiteralForm) (dollars : Nat)
  deriving DecidableEq, Repr, Inhabited

/-- The next piece of text; without a kind it goes to the front of the token that follows. -/
structure Lexeme where
  kind : Option TokenKind
  chars : List Char
  rest : List Char
  frames : List Frame

def isGap (c : Char) : Bool := Text.isBlank c || c.toNat = 0xFEFF

def isWordStart (c : Char) : Bool :=
  c.isAlpha || c = '_' || c = '@' || c = '\\' || (0x80 ≤ c.toNat && !isGap c)

def isWordPart (c : Char) : Bool := c.isDigit || (isWordStart c && c ≠ '@')

def takeBlockComment (taken : List Char) : List Char → List Char × List Char
  | [] => (taken.reverse, [])
  | '*' :: '/' :: cs => (('/' :: '*' :: taken).reverse, cs)
  | c :: cs => takeBlockComment (c :: taken) cs

def isLineEnd (c : Char) : Bool := c = '\n' || c = '\r'

def takeEscaped (quote : Char) (taken : List Char) : List Char → List Char × List Char
  | [] => (taken.reverse, [])
  | '\\' :: c :: cs => takeEscaped quote (c :: '\\' :: taken) cs
  | c :: cs => if c = quote then ((c :: taken).reverse, cs) else takeEscaped quote (c :: taken) cs

def takeVerbatim (taken : List Char) : List Char → List Char × List Char
  | [] => (taken.reverse, [])
  | '"' :: '"' :: cs => takeVerbatim ('"' :: '"' :: taken) cs
  | c :: cs => if c = '"' then ((c :: taken).reverse, cs) else takeVerbatim (c :: taken) cs

def runLength (c : Char) (cs : List Char) : Nat := (cs.takeWhile (· = c)).length

/-- Up to the end of the first run of at least `quotes` quotes, `run` of which stand just before. -/
def takeRaw (quotes run : Nat) (taken : List Char) : List Char → List Char × List Char
  | [] => (taken.reverse, [])
  | c :: cs =>
    if c = '"' then
      if quotes ≤ run + 1 && cs.head? ≠ some '"' then ((c :: taken).reverse, cs)
      else takeRaw quotes (run + 1) (c :: taken) cs
    else takeRaw quotes 0 (c :: taken) cs

def takeRawText (quotes dollars : Nat) (taken : List Char) : List Char → List Char × List Char
  | [] => (taken.reverse, [])
  | c :: cs =>
    if (c = '"' && quotes ≤ runLength '"' (c :: cs)) ||
        (c = '{' && runLength '{' (c :: cs) = dollars) then (taken.reverse, c :: cs)
    else takeRawText quotes dollars (c :: taken) cs

def isEscapedPair (verbatim : Bool) (c d : Char) : Bool :=
  (c = '\\' && !verbatim) || (c = '"' && d = '"' && verbatim) || (c = '{' && d = '{') ||
    (c = '}' && d = '}')

def takeQuotedText (verbatim : Bool) (taken : List Char) : List Char → List Char × List Char
  | [] => (taken.reverse, [])
  | [c] => if c = '"' || c = '{' then (taken.reverse, [c]) else ((c :: taken).reverse, [])
  | c :: d :: cs =>
    if isEscapedPair verbatim c d then takeQuotedText verbatim (d :: c :: taken) cs
    else if c = '"' || c = '{' then (taken.reverse, c :: d :: cs)
    else takeQuotedText verbatim (c :: taken) (d :: cs)

def takeLiteralText (form : LiteralForm) (dollars : Nat) (cs : List Char) :
    List Char × List Char :=
  match form with
  | .raw quotes => takeRawText quotes dollars [] cs
  | .verbatim => takeQuotedText true [] cs
  | .regular => takeQuotedText false [] cs

/-- A number from its first digit; a point belongs to it if a digit follows, and a sign if an
exponent mark of a decimal number stands before. -/
def takeNumber (decimal : Bool) (taken : List Char) : List Char → List Char × List Char
  | [] => (taken.reverse, [])
  | c :: cs =>
    let next := cs.head?.getD ' '
    let last := taken.head?.getD ' '
    let belongs := isWordPart c
      || (c = '.' && next.isDigit && !taken.contains '.')
      || ((c = '+' || c = '-') && decimal && (last = 'e' || last = 'E') && next.isDigit)
    if belongs then takeNumber decimal (c :: taken) cs else (taken.reverse, c :: cs)

/-- Symbols of more than one character, longest first. None begins with `>`, which may close a list
of type arguments. -/
def longSymbols : List String :=
  ["??=", "<<=", "+=", "-=", "*=", "/=", "%=", "&=", "|=", "^=", "++", "--", "->", "=>", "==",
    "!=", "<=", "&&", "||", "??", "::", "..", "<<"]

def takeSymbol (cs : List Char) : List Char × List Char :=
  match longSymbols.find? fun symbol => symbol.toList.isPrefixOf cs with
  | some symbol => (symbol.toList, cs.drop symbol.toList.length)
  | none => (cs.take 1, cs.drop 1)

def directiveName (line : List Char) : String :=
  String.ofList (((line.drop 1).dropWhile fun c => c = ' ' || c = '\t').takeWhile Char.isAlpha)

def conditionalNames : List String := ["if", "elif", "else", "endif"]

def lexCode (frames : List Frame) (cs : List Char) : Lexeme :=
  let piece (kind : Option TokenKind) (taken : List Char × List Char) : Lexeme :=
    ⟨kind, taken.1, taken.2, frames⟩
  let interpolated (form : LiteralForm) (dollars length : Nat) : Lexeme :=
    ⟨some .opening, cs.take length, cs.drop length, .literal form dollars :: frames⟩
  match cs with
  | [] => ⟨none, [], [], frames⟩
  | '/' :: '/' :: _ => piece none (cs.takeWhile (!isLineEnd ·), cs.dropWhile (!isLineEnd ·))
  | '/' :: '*' :: rest => piece none (takeBlockComment ['*', '/'] rest)
  | '#' :: _ =>
    let line := cs.takeWhile (!isLineEnd ·)
    let kind := if conditionalNames.contains (directiveName line) then some .directive else none
    piece kind (line, cs.dropWhile (!isLineEnd ·))
  | '"' :: rest =>
    let quotes := runLength '"' cs
    if 3 ≤ quotes then
      piece (some .text) (takeRaw quotes 0 (cs.take quotes).reverse (cs.drop quotes))
    else piece (some .text) (takeEscaped '"' ['"'] rest)
  | '\'' :: rest => piece (some .text) (takeEscaped '\'' ['\''] rest)
  | '@' :: '"' :: rest => piece (some .text) (takeVerbatim ['"', '@'] rest)
  | '@' :: '$' :: '"' :: _ => interpolated .verbatim 1 3
  | '$' :: rest =>
    let dollars := runLength '$' cs
    let after := cs.drop dollars
    let quotes := runLength '"' after
    if after.head? = some '@' then interpolated .verbatim 1 (dollars + 2)
    else if 3 ≤ quotes then interpolated (.raw quotes) dollars (dollars + quotes)
    else if 1 ≤ quotes then interpolated .regular dollars (dollars + 1)
    else piece (some .symbol) (['$'], rest)
  | c :: rest =>
    if isGap c then piece none (cs.takeWhile isGap, cs.dropWhile isGap)
    else if c.isDigit || (c = '.' && (rest.head?.getD ' ').isDigit) then
      let second := rest.head?.getD ' '
      piece (some .number) (takeNumber (!(c = '0' && (second = 'x' || second = 'X'))) [c] rest)
    else if isWordStart c then
      piece (some .word) (c :: rest.takeWhile isWordPart, rest.dropWhile isWordPart)
    else if c = '(' || c = '[' || c = '{' then ⟨some .opening, [c], rest, .bracket :: frames⟩
    else if c = ')' || c = ']' || c = '}' then
      match frames with
      | .bracket :: outer => ⟨some .closing, [c], rest, outer⟩
      | .hole _ dollars :: outer =>
        if c = '}' then ⟨some .closing, cs.take (min dollars (runLength '}' cs)),
          cs.drop (min dollars (runLength '}' cs)), outer⟩
        else ⟨some .closing, [c], rest, frames⟩
      | _ => ⟨some .closing, [c], rest, frames⟩
    else match frames with
      | .hole _ _ :: _ =>
        if c = ':' && rest.head? ≠ some ':' then
          piece (some .text) (cs.takeWhile fun d => d ≠ '}' && d ≠ '"',
            cs.dropWhile fun d => d ≠ '}' && d ≠ '"')
        else piece (some .symbol) (takeSymbol cs)
      | _ => piece (some .symbol) (takeSymbol cs)

def lexLiteral (form : LiteralForm) (dollars : Nat) (outer : List Frame) (cs : List Char) :
    Lexeme :=
  let frames := .literal form dollars :: outer
  let (plain, rest) := takeLiteralText form dollars cs
  if !plain.isEmpty then ⟨some .text, plain, rest, frames⟩
  else match cs with
    | [] => ⟨none, [], [], outer⟩
    | '{' :: _ => ⟨some .opening, cs.take dollars, cs.drop dollars, .hole form dollars :: frames⟩
    | _ =>
      let quotes := match form with | .raw quotes => quotes | _ => 1
      ⟨some .closing, cs.take quotes, cs.drop quotes, outer⟩

def lexeme (frames : List Frame) (cs : List Char) : Lexeme :=
  match frames with
  | .literal form dollars :: outer => lexLiteral form dollars outer cs
  | _ => lexCode frames cs

/-- Reads on until the text or the fuel ends; `leading` and `tokens` are kept backwards. -/
def tokenizeFrom : Nat → List Frame → List Char → List Token → List Char → List Token
  | 0, _, _, tokens, _ => tokens.reverse
  | fuel + 1, frames, leading, tokens, cs =>
    if cs.isEmpty then tokens.reverse
    else
      let next := lexeme frames cs
      match next.kind with
      | none => tokenizeFrom fuel next.frames (next.chars.reverseAux leading) tokens next.rest
      | some kind =>
        tokenizeFrom fuel next.frames []
          (⟨kind, String.ofList leading.reverse, String.ofList next.chars⟩ :: tokens) next.rest

def tokenize (source : String) : List Token :=
  let cs := source.toList
  tokenizeFrom cs.length [] [] [] cs

end HookEvents.CSharp
