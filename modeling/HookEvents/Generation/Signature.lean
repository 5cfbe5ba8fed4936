import HookEvents.Config.Basic
import HookEvents.Hook.Reference
import HookEvents.Symbol.Basic

/-!
The delegate types of generated events. A hook that wraps calls takes a delegate for the method
itself and then the method's own arguments.
-/
namespace HookEvents

open Text

inductive CallbackShape where
  | zero
  | noResult
  | withResult
  deriving DecidableEq, Repr, Inhabited

structure CallbackSignature where
  shape : CallbackShape
  types : List String
  deriving DecidableEq, Repr, Inhabited

def actionType : String := "global::System.Action"

def funcType : String := "global::System.Func"

namespace CallbackSignature

def instanceType (declaringType : TypeSymbol) : String :=
  "global::" ++ declaringType.qualifiedName

def ofMethod (declaringType : TypeSymbol) (method : Method) : CallbackSignature :=
  let receiver := if method.isStatic then [] else [instanceType declaringType]
  let types := receiver ++ method.parameters ++ method.returnType.toList
  let shape : CallbackShape :=
    if types.isEmpty then .zero else if method.returnType.isSome then .withResult else .noResult
  { shape, types }

def head (signature : CallbackSignature) : String :=
  match signature.shape with
  | .zero | .noResult => actionType
  | .withResult => funcType

def methodDelegate (signature : CallbackSignature) : String :=
  match signature.shape with
  | .zero => actionType
  | _ => signature.head ++ "<" ++ join ", " signature.types ++ ">"

def hookDelegate (signature : CallbackSignature) : String :=
  signature.head ++ "<" ++ join ", " (signature.methodDelegate :: signature.types) ++ ">"

def callbackType (signature : CallbackSignature) (config : GeneratorConfig) : HookKind → String
  | .subscribe => signature.hookDelegate
  | .transform => config.manipulatorPath

end CallbackSignature
end HookEvents
