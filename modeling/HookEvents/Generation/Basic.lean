import HookEvents.Generation.Unit

namespace HookEvents

structure GenerationStats where
  subscribeReferences : Nat := 0
  transformReferences : Nat := 0
  resolved : Nat := 0
  unknownTypes : Nat := 0
  unknownMethods : Nat := 0
  genericSkipped : Nat := 0
  units : Nat := 0
  members : Nat := 0
  deriving DecidableEq, Repr, Inhabited

structure Generation where
  units : List GeneratedUnit := []
  unresolved : List Unresolved := []
  stats : GenerationStats := {}
  deriving DecidableEq, Repr, Inhabited

def Resolution.countReason (resolution : Resolution) (reason : UnresolvedReason) : Nat :=
  resolution.unresolved.countP fun unresolved => unresolved.reason = reason

def generate (model : Model) (config : GeneratorConfig) (refs : HookReferences) : Generation :=
  let resolution := resolveAll model refs
  let groups := groupHooks resolution.hooks
  { units := groups.map (HookGroup.emit config)
    unresolved := resolution.unresolved
    stats :=
      { subscribeReferences := refs.subscribe.size
        transformReferences := refs.transform.size
        resolved := resolution.hooks.length
        unknownTypes := resolution.countReason .unknownType
        unknownMethods := resolution.countReason .unknownMethod
        genericSkipped :=
          resolution.countReason .genericType + resolution.countReason .genericMethod
        units := groups.length
        members := groups.foldl (fun count group => count + group.methods.length) 0 } }

end HookEvents
