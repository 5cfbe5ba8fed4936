import HookEvents.CSharp.TokenTree

/-!
Where types stand among token trees. Each `take` function returns the trees that it takes and the
trees that follow them.
-/
namespace HookEvents.CSharp

open TokenTree

abbrev Taken := List TokenTree × List TokenTree

def reservedWords : List String :=
  ["abstract", "as", "base", "break", "case", "catch", "checked", "class", "const", "continue",
    "default", "delegate", "do", "else", "enum", "event", "explicit", "extern", "false", "finally",
    "fixed", "for", "foreach", "goto", "if", "implicit", "in", "interface", "internal", "is", "lock",
    "namespace", "new", "null", "operator", "out", "override", "params", "private", "protected",
    "public", "readonly", "ref", "return", "sealed", "sizeof", "stackalloc", "static", "struct",
    "switch", "this", "throw", "true", "try", "typeof", "unchecked", "unsafe", "using", "virtual",
    "volatile", "while"]

def typeModifiers : List String := ["ref", "readonly", "in", "out"]

def isTypeSuffix : TokenTree → Bool
  | .leaf token => token.kind = .symbol && (token.text = "?" || token.text = "*")
  | .group opening inner _ => opening.text = "[" && inner.all (isSymbol ",")

def withSuffixes (taken rest : List TokenTree) : Taken :=
  (taken ++ rest.takeWhile isTypeSuffix, rest.dropWhile isTypeSuffix)

mutual

def takeType : Nat → List TokenTree → Option Taken
  | 0, _ => none
  | _ + 1, [] => none
  | fuel + 1, tree :: rest =>
    if tree.isGroup "(" then some (withSuffixes [tree] rest)
    else match tree.word? with
      | none => none
      | some word =>
        if typeModifiers.contains word then
          (takeType fuel rest).map fun (taken, rest) => (tree :: taken, rest)
        else if word = "delegate" then
          (takeFunctionPointer fuel rest).map fun (taken, rest) => withSuffixes (tree :: taken) rest
        else if reservedWords.contains word then none
        else
          let (path, rest) := takePath fuel rest
          some (withSuffixes (tree :: path) rest)

def takeFunctionPointer : Nat → List TokenTree → Option Taken
  | 0, _ => none
  | fuel + 1, trees =>
    match trees with
    | star :: rest =>
      if star.isSymbol "*" then
        let convention := rest.takeWhile fun tree => tree.isName || tree.isGroup "["
        (takeArguments fuel (rest.drop convention.length)).map fun (taken, rest) =>
          (star :: convention ++ taken, rest)
      else none
    | [] => none

def takePath : Nat → List TokenTree → Taken
  | 0, trees => ([], trees)
  | fuel + 1, trees =>
    match trees with
    | mark :: rest =>
      if mark.isSymbol "<" then
        match takeArguments fuel trees with
        | some (taken, rest) =>
          let (path, rest) := takePath fuel rest
          (taken ++ path, rest)
        | none => ([], trees)
      else if mark.isSymbol "." || mark.isSymbol "::" then
        match rest with
        | name :: rest =>
          if name.isName then
            let (path, rest) := takePath fuel rest
            (mark :: name :: path, rest)
          else ([], trees)
        | [] => ([], trees)
      else ([], trees)
    | [] => ([], trees)

def takeArguments : Nat → List TokenTree → Option Taken
  | 0, _ => none
  | fuel + 1, trees =>
    match trees with
    | mark :: rest =>
      if mark.isSymbol "<" then
        (takeArgumentList fuel rest).map fun (taken, rest) => (mark :: taken, rest)
      else none
    | [] => none

def takeArgumentList : Nat → List TokenTree → Option Taken
  | 0, _ => none
  | _ + 1, [] => none
  | fuel + 1, tree :: rest =>
    if tree.isSymbol ">" then some ([tree], rest)
    else if tree.isSymbol "," then
      (takeArgumentList fuel rest).map fun (taken, rest) => (tree :: taken, rest)
    else match takeType fuel (tree :: rest) with
      | some (type, next :: rest) =>
        if next.isSymbol ">" || next.isSymbol "," then
          (takeArgumentList fuel (next :: rest)).map fun (taken, rest) => (type ++ taken, rest)
        else none
      | _ => none

end

def takeArgumentsIfAny (fuel : Nat) (trees : List TokenTree) : Taken :=
  (takeArguments fuel trees).getD ([], trees)

def takeAngles (depth : Nat) : List TokenTree → Taken
  | [] => ([], [])
  | tree :: rest =>
    if tree.isSymbol ">" && depth ≤ 1 then ([tree], rest)
    else
      let depth :=
        if tree.isSymbol "<" then depth + 1 else if tree.isSymbol ">" then depth - 1 else depth
      let (taken, rest) := takeAngles depth rest
      (tree :: taken, rest)

/-- Splits at the commas that are not between type arguments. `part` is the current part backwards. -/
def splitAtCommas : Nat → List TokenTree → List TokenTree → List (List TokenTree)
  | 0, part, trees => [part.reverse ++ trees]
  | _ + 1, part, [] => [part.reverse]
  | fuel + 1, part, tree :: rest =>
    if tree.isSymbol "," then part.reverse :: splitAtCommas fuel [] rest
    else
      let (taken, rest') := takeArgumentsIfAny fuel (tree :: rest)
      if taken.isEmpty then splitAtCommas fuel (tree :: part) rest
      else splitAtCommas fuel (taken.reverse ++ part) rest'

def commaParts (fuel : Nat) (trees : List TokenTree) : List (List TokenTree) :=
  if trees.isEmpty then [] else splitAtCommas fuel [] trees

end HookEvents.CSharp
