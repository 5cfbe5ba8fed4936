import HookEvents.Generation.Group
import HookEvents.Generation.Signature

namespace HookEvents

open Text

structure GeneratedUnit where
  name : String
  text : String
  deriving DecidableEq, Repr, Inhabited

def generatedExtension : String := ".g.cs"

def GeneratedUnit.fileName (unit : GeneratedUnit) : String := unit.name ++ generatedExtension

def indentLine (width : Nat) (line : String) : String :=
  if line = "" then "" else String.ofList (List.replicate width ' ') ++ line

def openBrace : String := String.singleton '{'

def closeBrace : String := String.singleton '}'

def block (width : Nat) (header : String) (body : List String) : List String :=
  header :: openBrace :: body.map (indentLine width) ++ [closeBrace]

def bindingFlags : String :=
  join " | " (["Public", "NonPublic", "Static", "Instance"].map
    ("global::System.Reflection.BindingFlags." ++ ·))

def HookKind.operations : HookKind → String × String
  | .subscribe => ("Add", "Remove")
  | .transform => ("Modify", "Unmodify")

def methodLookup (declaringType : TypeSymbol) (method : Method) : String :=
  "typeof(global::" ++ declaringType.qualifiedName ++ ").GetMethod(\"" ++ method.name ++ "\", " ++
    bindingFlags ++ ")"

def accessorLine (config : GeneratorConfig) (accessor operation target : String) : String :=
  accessor ++ " => " ++ config.endpointManagerPath ++ "." ++ operation ++ "(" ++ target ++
    ", value);"

def eventLines (config : GeneratorConfig) (kind : HookKind) (declaringType : TypeSymbol)
    (method : Method) : List String :=
  let callback := (CallbackSignature.ofMethod declaringType method).callbackType config kind
  let target := methodLookup declaringType method
  let (add, remove) := kind.operations
  block config.indent ("public static event " ++ callback ++ " " ++ method.name)
    [accessorLine config "add" add target, accessorLine config "remove" remove target]

def separated : List (List String) → List String
  | [] => []
  | [lines] => lines
  | lines :: rest => lines ++ "" :: separated rest

def headerLines : List String :=
  ["// <auto-generated />", "// Generated by hookgen. Do not edit.", "#nullable disable", ""]

namespace HookGroup

def namespaceName (group : HookGroup) : String :=
  match group.declaringType.namespaceName with
  | some name => group.kind.root ++ "." ++ name
  | none => group.kind.root

def usingLines (group : HookGroup) : List String :=
  let usings := group.declaringType.usings
  if usings.isEmpty then [] else usings.map (fun target => "using " ++ target ++ ";") ++ [""]

def classLines (config : GeneratorConfig) (group : HookGroup) : List String :=
  let events := separated
    (group.methods.map (eventLines config group.kind group.declaringType))
  group.declaringType.nestingChain.foldr
    (fun level body => block config.indent ("public static partial class " ++ level) body) events

def lines (config : GeneratorConfig) (group : HookGroup) : List String :=
  (if config.header then headerLines else []) ++ group.usingLines ++
    block config.indent ("namespace " ++ group.namespaceName) (group.classLines config)

def emit (config : GeneratorConfig) (group : HookGroup) : GeneratedUnit :=
  { name := group.unitName
    text := String.join ((group.lines config).map (· ++ "\n")) }

end HookGroup
end HookEvents
