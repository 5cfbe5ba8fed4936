/-!
Syntax trees of C#. Only the kinds of node that matter for finding hook references and types have
names of their own.
-/
namespace HookEvents.CSharp

inductive NodeKind where
  | compilationUnit
  | usingDirective
  | namespaceDeclaration
  | fileScopedNamespace
  | declarationList
  | typeDeclaration
  | methodDeclaration
  | fieldDeclaration
  | eventFieldDeclaration
  | propertyDeclaration
  | eventDeclaration
  | indexerDeclaration
  | variableDeclaration
  | variableDeclarator
  | parameterList
  | parameter
  | typeParameterList
  | typeParameter
  | modifier
  | staticKeyword
  | identifier
  | assignment
  | memberAccess
  | qualifiedName
  | conditional
  | other
  deriving DecidableEq, Repr, Inhabited

inductive Role where
  | name
  | body
  | type
  | returns
  | typeParameters
  | parameters
  | left
  | operator
  | right
  deriving DecidableEq, Repr, Inhabited

inductive Node where
  | mk (kind : NodeKind) (role : Option Role) (text : String) (children : List Node)
  deriving Inhabited, Repr

namespace Node

def kind : Node → NodeKind
  | .mk kind _ _ _ => kind

def role : Node → Option Role
  | .mk _ role _ _ => role

def text : Node → String
  | .mk _ _ text _ => text

def children : Node → List Node
  | .mk _ _ _ children => children

def withRole (role : Role) : Node → Node
  | .mk kind _ text children => .mk kind (some role) text children

def childFor? (node : Node) (role : Role) : Option Node :=
  node.children.find? fun child => child.role = some role

def childOf? (node : Node) (kind : NodeKind) : Option Node :=
  node.children.find? fun child => child.kind = kind

mutual

def count : Node → Nat
  | .mk _ _ _ children => countIn children + 1

def countIn : List Node → Nat
  | [] => 0
  | node :: nodes => node.count + countIn nodes

end

theorem count_eq (node : Node) : node.count = countIn node.children + 1 := by
  cases node
  rw [count]
  rfl

theorem countIn_append (nodes others : List Node) :
    countIn (nodes ++ others) = countIn nodes + countIn others := by
  induction nodes with
  | nil => simp [countIn]
  | cons node nodes ih => rw [List.cons_append, countIn, countIn, ih, Nat.add_assoc]

end Node
end HookEvents.CSharp
