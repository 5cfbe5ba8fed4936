import HookEvents.CSharp.Token

namespace HookEvents.CSharp

inductive TokenTree where
  | leaf (token : Token)
  | group (opening : Token) (inner : List TokenTree) (closing : Option Token)
  deriving Inhabited

namespace TokenTree

mutual

def tokensBefore : TokenTree → List Token → List Token
  | .leaf token, rest => token :: rest
  | .group opening inner closing, rest =>
    opening :: tokensOfAllBefore inner (closing.toList ++ rest)

def tokensOfAllBefore : List TokenTree → List Token → List Token
  | [], rest => rest
  | tree :: trees, rest => tree.tokensBefore (tokensOfAllBefore trees rest)

end

def tokensOf (trees : List TokenTree) : List Token := tokensOfAllBefore trees []

def sourceText (trees : List TokenTree) : String :=
  match tokensOf trees with
  | [] => ""
  | token :: tokens => String.join (token.text :: tokens.map fun t => t.leading ++ t.text)

structure OpenGroup where
  before : List TokenTree
  opening : Token

def closeAll : List OpenGroup → List TokenTree → List TokenTree
  | [], trees => trees.reverse
  | last :: stack, trees => closeAll stack (.group last.opening trees.reverse none :: last.before)

/-- Reads on with the open groups, innermost first, and the current trees backwards. -/
def groupFrom (stack : List OpenGroup) (trees : List TokenTree) : List Token → List TokenTree
  | [] => closeAll stack trees
  | token :: tokens =>
    match token.kind, stack with
    | .opening, _ => groupFrom (⟨trees, token⟩ :: stack) [] tokens
    | .closing, last :: stack =>
      groupFrom stack (.group last.opening trees.reverse (some token) :: last.before) tokens
    | _, _ => groupFrom stack (.leaf token :: trees) tokens

def ofTokens (tokens : List Token) : List TokenTree := groupFrom [] [] tokens

def isSymbol (symbol : String) : TokenTree → Bool
  | .leaf token => token.kind = .symbol && token.text = symbol
  | .group .. => false

def isWord (word : String) : TokenTree → Bool
  | .leaf token => token.kind = .word && token.text = word
  | .group .. => false

def word? : TokenTree → Option String
  | .leaf token => if token.kind = .word then some token.text else none
  | .group .. => none

def isName (tree : TokenTree) : Bool := tree.word?.isSome

def isDirective : TokenTree → Bool
  | .leaf token => token.kind = .directive
  | .group .. => false

def isDirectiveNamed (name : String) : TokenTree → Bool
  | .leaf token => token.kind = .directive && directiveName token.text.toList = name
  | .group .. => false

def isGroup (opening : String) : TokenTree → Bool
  | .leaf _ => false
  | .group token .. => token.text = opening

end TokenTree
end HookEvents.CSharp
