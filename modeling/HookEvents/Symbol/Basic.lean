import HookEvents.Text.Blank
import HookEvents.Text.Split

namespace HookEvents

open Text

structure Method where
  name : String
  isStatic : Bool := false
  parameters : List String := []
  /-- Nothing for a method without a result. -/
  returnType : Option String := none
  typeParameters : List String := []
  deriving DecidableEq, Repr, Inhabited

namespace Method

def isGeneric (method : Method) : Bool := !method.typeParameters.isEmpty

/-- The texts that stand for the absence of a result. -/
def voidNames : List String := ["void", "System.Void", "global::System.Void"]

def isVoidText (text : String) : Bool :=
  let trimmed := trim text
  trimmed = "" || voidNames.contains trimmed

def returnTypeOf (text : String) : Option String :=
  if isVoidText text then none else some text

def withStatic (method : Method) (isStatic : Bool) : Method := { method with isStatic }

def withParameters (method : Method) (parameters : List String) : Method :=
  { method with parameters }

def withReturnType (method : Method) (text : String) : Method :=
  { method with returnType := returnTypeOf text }

def withTypeParameters (method : Method) (typeParameters : List String) : Method :=
  { method with typeParameters }

end Method

inductive Member where
  | method (method : Method)
  | field (name : String)
  | property (name : String)
  | nestedType (name : String)
  deriving DecidableEq, Repr, Inhabited

namespace Member

def name : Member → String
  | .method m => m.name
  | .field name => name
  | .property name => name
  | .nestedType name => name

def method? : Member → Option Method
  | .method m => some m
  | _ => none

end Member

structure TypeSymbol where
  name : String
  namespaceName : Option String := none
  /-- The enclosing types, outermost first. -/
  containingTypes : List String := []
  members : List Member := []
  typeParameters : List String := []
  /-- What the `using` directives in scope of the declaration name. -/
  usings : List String := []
  deriving DecidableEq, Repr, Inhabited

namespace TypeSymbol

/-- Puts the type into a namespace, where the empty text stands for none. -/
def inNamespace (symbol : TypeSymbol) (name : String) : TypeSymbol :=
  { symbol with namespaceName := if name = "" then none else some name }

def nestedIn (symbol : TypeSymbol) (containingTypes : List String) : TypeSymbol :=
  { symbol with containingTypes }

def withTypeParameters (symbol : TypeSymbol) (typeParameters : List String) : TypeSymbol :=
  { symbol with typeParameters }

def withUsings (symbol : TypeSymbol) (usings : List String) : TypeSymbol := { symbol with usings }

def withMember (symbol : TypeSymbol) (member : Member) : TypeSymbol :=
  { symbol with members := symbol.members ++ [member] }

def isGeneric (symbol : TypeSymbol) : Bool := !symbol.typeParameters.isEmpty

def nestingChain (symbol : TypeSymbol) : List String := symbol.containingTypes ++ [symbol.name]

def qualifiedName (symbol : TypeSymbol) : String :=
  join "." (symbol.namespaceName.toList ++ symbol.nestingChain)

def qualifyIn (outer name : String) : String :=
  if outer = "" then name else outer ++ "." ++ name

def containersFrom (outer : String) : List String → List String
  | [] => []
  | container :: rest =>
    let current := qualifyIn outer container
    current :: containersFrom current rest

def containerNames (symbol : TypeSymbol) : List String :=
  containersFrom (symbol.namespaceName.getD "") symbol.containingTypes

def methods (symbol : TypeSymbol) : List Method := symbol.members.filterMap Member.method?

/-- The first method of that name; later overloads are not seen. -/
def methodNamed (symbol : TypeSymbol) (name : String) : Option Method :=
  symbol.methods.find? fun method => method.name = name

end TypeSymbol
end HookEvents
