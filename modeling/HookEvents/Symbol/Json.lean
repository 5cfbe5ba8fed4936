import HookEvents.Json.Fields
import HookEvents.Json.Printer
import HookEvents.Json.Reader
import HookEvents.Symbol.Table

namespace HookEvents

open Json

namespace Method

def ofFields? (fields : Fields) : Option Method := do
  let name ← fields.required "name" 0 text?
  let isStatic ← fields.optional "static" 1 bool? false
  let parameters ← fields.optional "parameters" 2 (list? text?) []
  let returnType ← fields.optional "return_type" 3 (nullable? text?) none
  let typeParameters ← fields.optional "type_parameters" 4 (list? text?) []
  guard (fields.fits 5)
  return { name, isStatic, parameters, returnType := returnType.bind returnTypeOf, typeParameters }

def ofJson? (value : Json) : Option Method := do ofFields? (← Fields.ofJson? value)

def toEntries (method : Method) : List (String × Json) :=
  [("name", .text method.name), ("static", .bool method.isStatic),
    ("parameters", .array (method.parameters.map .text))]
  ++ (match method.returnType with | some result => [("return_type", .text result)] | none => [])
  ++ (if method.typeParameters.isEmpty then []
    else [("type_parameters", .array (method.typeParameters.map .text))])

def toJson (method : Method) : Json := .object method.toEntries

end Method

namespace Member

/-- Nesting that the values of a member may add to that of the member itself. -/
def depthLimit : Nat := 127

def tagged? : Json → Option (String × Fields)
  | .array (tag :: items) => return (← text? tag, .listed items)
  | .object entries => do
    let tag ← match valuesOf "kind" entries with
      | [tag] => text? tag
      | _ => none
    return (tag, .named (entries.filter fun entry => entry.1 ≠ "kind"))
  | _ => none

def nameOf? (fields : Fields) : Option String := do
  let name ← fields.required "name" 0 text?
  guard (fields.fits 1)
  return name

/-- A member inside `level` arrays and objects. All its values are looked at, also those of unknown
fields, so none of them may be without a value or nested too deep. -/
def ofJson? (level : Nat) (value : Json) : Option Member := do
  guard (value.sound && level + value.depth ≤ depthLimit)
  let (tag, fields) ← tagged? value
  if tag = "method" then return .method (← Method.ofFields? fields)
  else if tag = "field" then return .field (← nameOf? fields)
  else if tag = "property" then return .property (← nameOf? fields)
  else if tag = "nested_type" then return .nestedType (← nameOf? fields)
  else none

def toJson : Member → Json
  | .method m => .object (("kind", .text "method") :: m.toEntries)
  | .field name => .object [("kind", .text "field"), ("name", .text name)]
  | .property name => .object [("kind", .text "property"), ("name", .text name)]
  | .nestedType name => .object [("kind", .text "nested_type"), ("name", .text name)]

end Member

namespace TypeSymbol

def ofJson? (level : Nat) (value : Json) : Option TypeSymbol := do
  let fields ← Fields.ofJson? value
  let name ← fields.required "name" 0 text?
  let namespaceName ← fields.optional "namespace" 1 (nullable? text?) none
  let containingTypes ← fields.optional "containing_types" 2 (list? text?) []
  let members ← fields.optional "members" 3 (list? (Member.ofJson? (level + 2))) []
  let typeParameters ← fields.optional "type_parameters" 4 (list? text?) []
  let usings ← fields.optional "usings" 5 (list? text?) []
  guard (fields.fits 6)
  return { name, namespaceName, containingTypes, members, typeParameters, usings }

def textsEntry (key : String) (texts : List String) : List (String × Json) :=
  if texts.isEmpty then [] else [(key, .array (texts.map .text))]

def toJson (symbol : TypeSymbol) : Json :=
  .object ([("name", .text symbol.name)]
    ++ (match symbol.namespaceName with | some name => [("namespace", .text name)] | none => [])
    ++ textsEntry "containing_types" symbol.containingTypes
    ++ [("members", .array (symbol.members.map Member.toJson))]
    ++ textsEntry "type_parameters" symbol.typeParameters
    ++ textsEntry "usings" symbol.usings)

end TypeSymbol

namespace TypeTable

def symbolsOf? (value : Json) : Option (List TypeSymbol) := do
  let fields ← Fields.ofJson? value
  let symbols ← fields.required "types" 0 (list? (TypeSymbol.ofJson? 2))
  guard (fields.fits 1)
  return symbols

def ofJsonText? (text : String) : Option TypeTable := do
  return ofList (← symbolsOf? (← parse text))

def toJson (table : TypeTable) : Json :=
  .object [("types", .array (table.types.map TypeSymbol.toJson))]

def toJsonText (table : TypeTable) : String := pretty table.toJson

end TypeTable

end HookEvents
