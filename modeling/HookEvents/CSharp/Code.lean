import HookEvents.CSharp.Tree
import HookEvents.CSharp.TypeSpan

/-!
Statements and expressions, read for the assignments in them. An operand is a first part with all
its selectors; an operand before an assignment operator is the left side of an assignment.
-/
namespace HookEvents.CSharp

open TokenTree

def assignmentOperators : List String :=
  ["=", "+=", "-=", "*=", "/=", "%=", "&=", "|=", "^=", "<<=", "??="]

def isAssignmentOperator : TokenTree → Bool
  | .leaf token => token.kind = .symbol && assignmentOperators.contains token.text
  | .group .. => false

def operandWords : List String :=
  ["base", "checked", "default", "false", "null", "sizeof", "this", "true", "typeof", "unchecked"]

def headerWords : List String :=
  ["catch", "fixed", "for", "foreach", "if", "lock", "switch", "using", "while"]

def isHeaderWord (tree : TokenTree) : Bool := tree.word?.any headerWords.contains

def leafNode (token : Token) : Node :=
  let named := token.kind = .word && !reservedWords.contains token.text
  .mk (if named then .identifier else .other) none token.text []

def endsValue (tree : TokenTree) : Bool :=
  tree.isSymbol "," || tree.isSymbol ";" || tree.isDirective

/-- An operand: its kind, its trees and nodes backwards, and the trees after it. -/
structure Operand where
  kind : NodeKind
  trees : List TokenTree
  nodes : List Node
  rest : List TokenTree

def Operand.node (operand : Operand) : Node :=
  .mk operand.kind none (sourceText operand.trees.reverse) operand.nodes.reverse

mutual

def codeNodes : Nat → List TokenTree → List Node
  | 0, _ => []
  | _ + 1, [] => []
  | fuel + 1, tree :: rest =>
    if isHeaderWord tree && rest.head?.any (isGroup "(") then
      treeNode fuel tree :: (rest.take 1).map (treeNode fuel) ++ codeNodes fuel (rest.drop 1)
    else if tree.isSymbol "*" then
      match takeOperand fuel rest with
      | some operand =>
        let target := .mk .other none (sourceText (tree :: operand.trees.reverse))
          (treeNode fuel tree :: [operand.node])
        assignmentNodes fuel target (tree :: operand.trees.reverse) operand.rest
      | none => treeNode fuel tree :: codeNodes fuel rest
    else match takeOperand fuel (tree :: rest) with
      | some operand =>
        assignmentNodes fuel operand.node operand.trees.reverse operand.rest
      | none => treeNode fuel tree :: codeNodes fuel rest

def assignmentNodes : Nat → Node → List TokenTree → List TokenTree → List Node
  | 0, target, _, _ => [target]
  | _ + 1, target, _, [] => [target]
  | fuel + 1, target, trees, next :: rest =>
    if isAssignmentOperator next then
      let value := rest.takeWhile (!endsValue ·)
      let right := .mk .other (some .right) (sourceText value) (codeNodes fuel value)
      let operator := (treeNode fuel next).withRole .operator
      .mk .assignment none (sourceText (trees ++ next :: value))
          [target.withRole .left, operator, right]
        :: codeNodes fuel (rest.drop value.length)
    else if next.isSymbol "*" then target :: treeNode fuel next :: codeNodes fuel rest
    else target :: codeNodes fuel (next :: rest)

def treeNode : Nat → TokenTree → Node
  | 0, tree => .mk .other none (sourceText [tree]) []
  | _ + 1, .leaf token => leafNode token
  | fuel + 1, .group opening inner closing =>
    .mk .other none (sourceText [.group opening inner closing]) (codeNodes fuel inner)

def takeOperand : Nat → List TokenTree → Option Operand
  | 0, _ => none
  | _ + 1, [] => none
  | fuel + 1, tree :: rest =>
    let start (braces : Bool) (more rest : List TokenTree) : Option Operand :=
      let trees := tree :: more
      some (takeSelectors fuel braces ⟨.other, trees.reverse,
        (trees.map (treeNode fuel)).reverse, rest⟩)
    match tree with
    | .group opening _ _ =>
      if opening.text = "(" || opening.text.toList.contains '"' then start false [] rest else none
    | .leaf token =>
      match token.kind with
      | .number => start false [] rest
      | .text => start false [] rest
      | .word =>
        if token.text = "new" then
          let (type, rest) :=
            if rest.head?.any isName then (takeType fuel rest).getD ([], rest) else ([], rest)
          start true type rest
        else if reservedWords.contains token.text && !operandWords.contains token.text then none
        else
          let (arguments, rest) := takeArgumentsIfAny fuel rest
          start false arguments rest
      | .symbol =>
        -- the access after a question mark
        if token.text = "." && rest.head?.any isName then start false (rest.take 1) (rest.drop 1)
        else none
      | _ => none

/-- Extends an operand by the selectors that follow it; `braces` says whether an initializer may. -/
def takeSelectors : Nat → Bool → Operand → Operand
  | 0, _, operand => operand
  | fuel + 1, braces, operand =>
    let extend (kind : NodeKind) (more rest : List TokenTree) : Operand :=
      ⟨kind, more.reverse ++ operand.trees, (more.map (treeNode fuel)).reverse ++ operand.nodes, rest⟩
    match operand.rest with
    | [] => operand
    | tree :: rest =>
      if tree.isGroup "(" || tree.isGroup "[" ||
          (braces && tree.isGroup (String.singleton '{')) then
        takeSelectors fuel braces (extend .other [tree] rest)
      else if tree.isSymbol "!" then takeSelectors fuel false (extend .other [tree] rest)
      else if tree.isSymbol "." || tree.isSymbol "->" || tree.isSymbol "::" then
        match rest with
        | name :: rest =>
          if name.isName then
            let (arguments, rest) := takeArgumentsIfAny fuel rest
            let kind := if tree.isSymbol "." then .memberAccess else .other
            takeSelectors fuel false (extend kind (tree :: name :: arguments) rest)
          else operand
        | [] => operand
      else operand

end

end HookEvents.CSharp
