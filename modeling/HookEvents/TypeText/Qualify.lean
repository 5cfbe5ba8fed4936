import HookEvents.Symbol.Table
import HookEvents.TypeText.Reader

/-!
Type texts with full names for the types of a table. A name is looked up from inside the declaring
type, innermost scope first, and a name that is found begins with `global::`.
-/
namespace HookEvents

open Text

namespace TypeText

abbrev Lookup := String → Nat → Option String

/-- The name and the number of arguments under which the segments are looked up. Only the last
segment may have arguments. -/
def lookupKey : List (String × List TypeText) → Option (String × Nat)
  | [] => none
  | [(name, arguments)] => some (name, arguments.length)
  | (name, arguments) :: segments =>
    if arguments.isEmpty then
      (lookupKey segments).map fun (path, arity) => (name ++ "." ++ path, arity)
    else none

def withArguments (arguments : List TypeText) : List String → List (String × List TypeText)
  | [] => []
  | [name] => [(name, arguments)]
  | name :: names => (name, []) :: withArguments arguments names

def qualifiedName (found : Option String) (segments : List (String × List TypeText)) : TypeText :=
  match found with
  | some name =>
    let arguments := (segments.getLast?.map (·.2)).getD []
    .named (some "global") (withArguments arguments (split '.' name))
  | none => .named none segments

mutual

def qualify (lookup : Lookup) : TypeText → TypeText
  | .named (some root) segments => .named (some root) (qualifySegments lookup segments)
  | .named none segments =>
    let found := (lookupKey segments).bind fun (path, arity) => lookup path arity
    qualifiedName found (qualifySegments lookup segments)
  | .tuple elements => .tuple (qualifyElements lookup elements)
  | .suffixed element suffix => .suffixed (qualify lookup element) suffix

def qualifyAll (lookup : Lookup) : List TypeText → List TypeText
  | [] => []
  | type :: types => qualify lookup type :: qualifyAll lookup types

def qualifySegments (lookup : Lookup) :
    List (String × List TypeText) → List (String × List TypeText)
  | [] => []
  | (name, arguments) :: segments =>
    (name, qualifyAll lookup arguments) :: qualifySegments lookup segments

def qualifyElements (lookup : Lookup) :
    List (TypeText × Option String) → List (TypeText × Option String)
  | [] => []
  | (type, name) :: elements => (qualify lookup type, name) :: qualifyElements lookup elements

end

def qualifyText (lookup : Lookup) (text : String) : String :=
  match parse? text with
  | some type => (type.qualify lookup).render
  | none => text

end TypeText

/-- The scopes around a name, innermost first: itself, what stands before each dot, and the empty
scope. -/
def enclosingScopes (name : String) : List String :=
  let parts := split '.' name
  (List.range parts.length).map (fun i => join "." (parts.take (parts.length - i))) ++ [""]

namespace TypeTable

def lookup (table : TypeTable) (scopes : List String) : TypeText.Lookup := fun path arity =>
  (scopes.map fun outer => TypeSymbol.qualifyIn outer path).find? fun name =>
    (table.get? name).any fun symbol => symbol.typeParameters.length = arity

end TypeTable

def Method.mapTypes (f : String → String) (method : Method) : Method :=
  { method with
    parameters := method.parameters.map f
    returnType := method.returnType.map f }

def Member.mapTypes (f : String → String) : Member → Member
  | .method m => .method (m.mapTypes f)
  | other => other

def TypeSymbol.qualifyTypes (table : TypeTable) (symbol : TypeSymbol) : TypeSymbol :=
  let lookup := table.lookup (enclosingScopes symbol.qualifiedName)
  { symbol with members := symbol.members.map (Member.mapTypes (TypeText.qualifyText lookup)) }

def TypeTable.qualifyTypes (table : TypeTable) : TypeTable :=
  TypeTable.ofList (table.types.map (TypeSymbol.qualifyTypes table))

end HookEvents
