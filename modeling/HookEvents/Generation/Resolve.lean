import HookEvents.Hook.References
import HookEvents.Symbol.Table

/-!
Resolving references to methods. A reference that names no method, or a generic one, is left out
with the reason and never stops the rest.
-/
namespace HookEvents

abbrev Model := String → Option TypeSymbol

def TypeTable.model (table : TypeTable) : Model := table.get?

inductive UnresolvedReason where
  | unknownType
  | unknownMethod
  | genericType
  | genericMethod
  deriving DecidableEq, Repr, Inhabited

structure ResolvedHook where
  kind : HookKind
  declaringType : TypeSymbol
  method : Method
  deriving DecidableEq, Repr, Inhabited

structure Unresolved where
  reference : HookReference
  reason : UnresolvedReason
  deriving DecidableEq, Repr, Inhabited

def TypeSymbol.isOpenIn (model : Model) (symbol : TypeSymbol) : Bool :=
  symbol.isGeneric || symbol.containerNames.any fun name => (model name).any TypeSymbol.isGeneric

def resolve (model : Model) (reference : HookReference) : Except UnresolvedReason ResolvedHook :=
  match model reference.typeName with
  | none => .error .unknownType
  | some declaringType =>
    match declaringType.methodNamed reference.methodName with
    | none => .error .unknownMethod
    | some method =>
      if declaringType.isOpenIn model then .error .genericType
      else if method.isGeneric then .error .genericMethod
      else .ok { kind := reference.kind, declaringType, method }

structure Resolution where
  hooks : List ResolvedHook := []
  unresolved : List Unresolved := []
  deriving DecidableEq, Repr, Inhabited

def Resolution.add (model : Model) (resolution : Resolution) (reference : HookReference) :
    Resolution :=
  match resolve model reference with
  | .ok hook => { resolution with hooks := resolution.hooks ++ [hook] }
  | .error reason =>
    { resolution with unresolved := resolution.unresolved ++ [{ reference, reason }] }

def resolveAll (model : Model) (refs : HookReferences) : Resolution :=
  refs.toList.foldl (Resolution.add model) {}

end HookEvents
