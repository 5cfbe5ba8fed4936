import HookEvents.CSharp.Declarations
import HookEvents.Hook.References

namespace HookEvents.CSharp

def hookOperators : List String := ["+=", "-="]

def referenceOf? (node : Node) : Option HookReference :=
  if node.kind = .assignment then
    match node.childFor? .left, node.childFor? .operator with
    | some target, some operator =>
      if (target.kind = .memberAccess || target.kind = .qualifiedName) &&
          hookOperators.contains operator.text then
        HookReference.parse target.text
      else none
    | _, _ => none
  else none

mutual

/-- The references of a tree in document order, an outer assignment before those inside it. -/
def referencesIn : Node → List HookReference
  | .mk kind role text children =>
    (referenceOf? (.mk kind role text children)).toList ++ referencesInAll children

def referencesInAll : List Node → List HookReference
  | [] => []
  | node :: nodes => referencesIn node ++ referencesInAll nodes

end

def collectReferences (tree : Node) : HookReferences := HookReferences.ofList (referencesIn tree)

end HookEvents.CSharp
