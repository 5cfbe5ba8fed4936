import HookEvents.Hook.References
import HookEvents.Json.Fields

namespace HookEvents

open Json

/-- The name of the kind, alone or as the key of `null`. -/
def HookKind.ofJson? : Json → Option HookKind
  | .text name => ofName? name
  | .object [(name, .null)] => ofName? name
  | _ => none

namespace HookReference

def ofJson? (value : Json) : Option HookReference := do
  let fields ← Fields.ofJson? value
  let kind ← fields.required "kind" 0 HookKind.ofJson?
  let text ← fields.required "text" 1 text?
  let typeName ← fields.required "type_name" 2 text?
  let methodName ← fields.required "method_name" 3 text?
  guard (fields.fits 4)
  return { kind, text, typeName, methodName }

def toJson (reference : HookReference) : Json :=
  .object [("kind", .text reference.kind.name), ("text", .text reference.text),
    ("type_name", .text reference.typeName), ("method_name", .text reference.methodName)]

end HookReference

def ReferenceSet.toJson (set : ReferenceSet) : Json :=
  .array (set.references.map HookReference.toJson)

def HookReferences.toJson (refs : HookReferences) : Json :=
  .object [("subscribe", refs.subscribe.toJson), ("transform", refs.transform.toJson)]

end HookEvents
