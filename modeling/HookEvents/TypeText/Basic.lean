import HookEvents.Text.Split

/-!
The text of a type as a tree: dotted names with type arguments, tuples, and the marks for nullable,
pointer and array types.
-/
namespace HookEvents

open Text

/-- A mark after a type. An array has one more dimension than commas. -/
inductive TypeSuffix where
  | nullable
  | pointer
  | array (commas : Nat)
  deriving DecidableEq, Repr, Inhabited

inductive TypeText where
  /-- The segments of a dotted name, each with its type arguments, perhaps behind `alias::`. -/
  | named (root : Option String) (segments : List (String × List TypeText))
  | tuple (elements : List (TypeText × Option String))
  | suffixed (element : TypeText) (suffix : TypeSuffix)
  deriving Inhabited, Repr

namespace TypeSuffix

def render : TypeSuffix → String
  | .nullable => "?"
  | .pointer => "*"
  | .array commas => "[" ++ String.ofList (List.replicate commas ',') ++ "]"

end TypeSuffix

namespace TypeText

def renderArguments (arguments : List String) : String :=
  if arguments.isEmpty then "" else "<" ++ join ", " arguments ++ ">"

mutual

def render : TypeText → String
  | .named root segments =>
    let path := join "." (renderSegments segments)
    match root with
    | some root => root ++ "::" ++ path
    | none => path
  | .tuple elements => "(" ++ join ", " (renderElements elements) ++ ")"
  | .suffixed element suffix => element.render ++ suffix.render

def renderAll : List TypeText → List String
  | [] => []
  | type :: types => type.render :: renderAll types

def renderSegments : List (String × List TypeText) → List String
  | [] => []
  | (name, arguments) :: segments =>
    (name ++ renderArguments (renderAll arguments)) :: renderSegments segments

def renderElements : List (TypeText × Option String) → List String
  | [] => []
  | (type, name) :: elements =>
    (match name with
      | some name => type.render ++ " " ++ name
      | none => type.render) :: renderElements elements

end

end TypeText
end HookEvents
