import HookEvents.CSharp.Declarations
import HookEvents.Symbol.Basic

/-!
The types that a syntax tree declares, with their members. Declarations under conditional
compilation are left out.
-/
namespace HookEvents.CSharp

open Text

def plainText (node : Node) : String := collapse node.text

def textFor? (node : Node) (role : Role) : Option String :=
  ((node.childFor? role).map plainText).filter (· ≠ "")

structure Scope where
  /-- The namespace around the list of declarations. -/
  outer : Option String := none
  /-- The namespace of the next declaration, which a namespace without braces has changed. -/
  current : Option String := none
  containing : List String := []
  usings : List String := []
  deriving DecidableEq, Repr, Inhabited

namespace Scope

def inNamespace (scope : Scope) (name : String) : Scope :=
  { outer := some name, current := some name, usings := scope.usings }

def entered (scope : Scope) : Scope := { scope with outer := scope.current }

def inType (scope : Scope) (name : String) : Scope :=
  { scope with containing := scope.containing ++ [name] }

end Scope

/-- What a `using` directive names. A directive for the whole project does not begin with `using`. -/
def usingTarget? (node : Node) : Option String :=
  match dropStart "using " (plainText node) with
  | some rest =>
    let target := trim (dropEndWhile ';' rest)
    if target = "" then none else some target
  | none => none

def namespaceIn? (outer : Option String) (node : Node) : Option String :=
  (textFor? node .name).map (TypeSymbol.qualifyIn (outer.getD ""))

def Scope.after (scope : Scope) (node : Node) : Scope :=
  match node.kind with
  | .usingDirective =>
    match usingTarget? node with
    | some target =>
      if scope.usings.contains target then scope
      else { scope with usings := scope.usings ++ [target] }
    | none => scope
  | .fileScopedNamespace =>
    match namespaceIn? scope.outer node with
    | some name => { scope with current := some name }
    | none => scope
  | _ => scope

def isBodyAmong (children : List Node) (child : Node) : Bool :=
  if children.any fun node => node.role = some .body then child.role = some .body
  else child.kind = .declarationList

def body? (node : Node) : Option Node := node.children.find? (isBodyAmong node.children)

def typeParametersOf (node : Node) : List String :=
  match (node.childFor? .typeParameters).or (node.childOf? .typeParameterList) with
  | none => []
  | some list =>
    let parameters := list.children.filter fun child => child.kind = .typeParameter
    (parameters.map fun child => (textFor? child .name).getD (plainText child)).filter (· ≠ "")

def passingWords : List String := ["this", "ref", "out", "in", "params", "scoped", "readonly"]

def dropPassingWords : List String → List String
  | word :: next :: rest =>
    if passingWords.contains word then dropPassingWords (next :: rest) else word :: next :: rest
  | rest => rest

def parameterType (text : String) : String :=
  join " " (dropPassingWords ((words text.toList).map String.ofList))

def parameterTypes (list : Node) : List String :=
  ((list.children.filter fun child => child.kind = .parameter).filterMap
    (textFor? · .type)).map parameterType

def isStaticMethod (node : Node) : Bool :=
  node.children.any fun child =>
    match child.kind with
    | .modifier => trim child.text = "static"
    | kind => kind = .staticKeyword

def method? (node : Node) : Option Method :=
  (textFor? node .name).map fun name =>
    let result := ((textFor? node .returns).or (textFor? node .type)).getD "void"
    let parameters := ((node.childFor? .parameters).map parameterTypes).getD []
    Method.withStatic { name } (isStaticMethod node) |>.withParameters parameters
      |>.withReturnType result |>.withTypeParameters (typeParametersOf node)

def variableName? (node : Node) : Option String :=
  ((node.childFor? .name).or (node.childOf? .identifier)).map plainText

/-- A search for declarators: the nodes still to be looked at, the next one first, and the names
found so far. -/
structure VariableSearch where
  stack : List Node
  names : List String := []

namespace VariableSearch

def push (stack nodes : List Node) : List Node :=
  nodes.foldl (fun stack node => node :: stack) stack

/-- Looks at the node on top. A declarator gives its name and is not looked into; the children of
any other node go onto the stack, the last one first. -/
def next? (search : VariableSearch) : Option VariableSearch :=
  match search.stack with
  | [] => none
  | node :: stack =>
    if node.kind = .variableDeclarator then
      some { stack, names := search.names ++ (variableName? node).toList }
    else some { search with stack := push stack node.children.reverse }

theorem push_reverse (stack nodes : List Node) : push stack nodes.reverse = nodes ++ stack := by
  rw [push, List.foldl_reverse, List.foldr_cons_eq_append']

theorem next?_nil (names : List String) : next? ⟨[], names⟩ = none := rfl

theorem next?_variable {node : Node} (h : node.kind = .variableDeclarator) (stack : List Node)
    (names : List String) :
    next? ⟨node :: stack, names⟩ = some ⟨stack, names ++ (variableName? node).toList⟩ := if_pos h

theorem next?_other {node : Node} (h : node.kind ≠ .variableDeclarator) (stack : List Node)
    (names : List String) :
    next? ⟨node :: stack, names⟩ = some ⟨node.children ++ stack, names⟩ := by
  rw [← push_reverse]
  exact if_neg h

theorem countIn_next? {search next : VariableSearch} (h : search.next? = some next) :
    Node.countIn next.stack < Node.countIn search.stack := by
  obtain ⟨stack, names⟩ := search
  cases stack with
  | nil => exact absurd h (by simp [next?_nil])
  | cons node stack =>
    rw [Node.countIn, Node.count_eq]
    by_cases hk : node.kind = .variableDeclarator
    · rw [next?_variable hk] at h
      obtain rfl := Option.some.inj h
      dsimp only
      omega
    · rw [next?_other hk] at h
      obtain rfl := Option.some.inj h
      dsimp only
      rw [Node.countIn_append]
      omega

def run (search : VariableSearch) : List String :=
  match _h : search.next? with
  | none => search.names
  | some next => next.run
termination_by Node.countIn search.stack
decreasing_by exact countIn_next? _h

end VariableSearch

def variableNames (node : Node) : List String := VariableSearch.run { stack := [node] }

def membersOf (node : Node) : List Member :=
  match node.kind with
  | .methodDeclaration => ((method? node).map Member.method).toList
  | .fieldDeclaration | .eventFieldDeclaration => (variableNames node).map Member.field
  | .propertyDeclaration | .eventDeclaration | .indexerDeclaration =>
    ((textFor? node .name).map Member.property).toList
  | .typeDeclaration => ((textFor? node .name).map Member.nestedType).toList
  | _ => []

def symbolOf (scope : Scope) (name : String) (node : Node) : TypeSymbol :=
  let symbol := TypeSymbol.inNamespace { name } (scope.current.getD "")
    |>.nestedIn scope.containing |>.withTypeParameters (typeParametersOf node)
    |>.withUsings scope.usings
  { symbol with
    members := ((body? node).map fun body => (body.children.map membersOf).flatten).getD [] }

mutual

/-- The types that a node declares, an outer type before those nested in it. -/
def typesOf (scope : Scope) : Node → List TypeSymbol
  | .mk kind role text children =>
    let node := Node.mk kind role text children
    match kind with
    | .namespaceDeclaration =>
      match namespaceIn? scope.current node with
      | some name => typesInBody (isBodyAmong children) (scope.inNamespace name) children
      | none => []
    | .fileScopedNamespace =>
      match namespaceIn? scope.outer node with
      | some name => typesIn (scope.inNamespace name) children
      | none => []
    | .declarationList => typesIn scope.entered children
    | .typeDeclaration =>
      match node.childFor? .name with
      | some nameNode =>
        let name := plainText nameNode
        symbolOf scope name node ::
          nestedInBody (isBodyAmong children) (scope.inType name) children
      | none => []
    | _ => []

def typesIn (scope : Scope) : List Node → List TypeSymbol
  | [] => []
  | node :: nodes => typesOf scope node ++ typesIn (scope.after node) nodes

def typesWithin (scope : Scope) : Node → List TypeSymbol
  | .mk _ _ _ children => typesIn scope children

def typesInBody (isBody : Node → Bool) (scope : Scope) : List Node → List TypeSymbol
  | [] => []
  | node :: nodes => if isBody node then typesWithin scope node else typesInBody isBody scope nodes

def nestedIn (scope : Scope) : List Node → List TypeSymbol
  | [] => []
  | node :: nodes =>
    (if node.kind = .typeDeclaration then typesOf scope node else []) ++ nestedIn scope nodes

def nestedWithin (scope : Scope) : Node → List TypeSymbol
  | .mk _ _ _ children => nestedIn scope children

def nestedInBody (isBody : Node → Bool) (scope : Scope) : List Node → List TypeSymbol
  | [] => []
  | node :: nodes => if isBody node then nestedWithin scope node else nestedInBody isBody scope nodes

end

def collectTypes (tree : Node) : List TypeSymbol := typesIn {} tree.children

end HookEvents.CSharp
