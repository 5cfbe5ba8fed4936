import HookEvents.Generation.Basic
import HookEvents.Hook.Json

namespace HookEvents

open Json

def UnresolvedReason.name : UnresolvedReason → String
  | .unknownType => "unknown_type"
  | .unknownMethod => "unknown_method"
  | .genericType => "generic_type"
  | .genericMethod => "generic_method"

def Unresolved.toJson (unresolved : Unresolved) : Json :=
  .object [("reference", unresolved.reference.toJson), ("reason", .text unresolved.reason.name)]

def GeneratedUnit.toJson (unit : GeneratedUnit) : Json :=
  .object [("name", .text unit.name), ("text", .text unit.text)]

def GenerationStats.toJson (stats : GenerationStats) : Json :=
  .object [("subscribe_references", .natural stats.subscribeReferences),
    ("transform_references", .natural stats.transformReferences),
    ("resolved", .natural stats.resolved), ("unknown_types", .natural stats.unknownTypes),
    ("unknown_methods", .natural stats.unknownMethods),
    ("generic_skipped", .natural stats.genericSkipped), ("units", .natural stats.units),
    ("members", .natural stats.members)]

def CallbackShape.name : CallbackShape → String
  | .zero => "zero"
  | .noResult => "no_result"
  | .withResult => "with_result"

end HookEvents
