namespace HookEvents.Text

def splitChars (sep : Char) : List Char → List (List Char)
  | [] => [[]]
  | c :: cs =>
    if c = sep then [] :: splitChars sep cs
    else match splitChars sep cs with
      | [] => [[c]]
      | piece :: pieces => (c :: piece) :: pieces

def split (sep : Char) (s : String) : List String :=
  (splitChars sep s.toList).map String.ofList

def join (sep : String) (parts : List String) : String :=
  String.ofList (List.intercalate sep.toList (parts.map String.toList))

def cutLast {α : Type} [DecidableEq α] (sep : α) : List α → Option (List α × List α)
  | [] => none
  | a :: as =>
    match cutLast sep as with
    | some (before, after) => some (a :: before, after)
    | none => if a = sep then some ([], as) else none

def splitLast (sep : Char) (s : String) : Option (String × String) :=
  (cutLast sep s.toList).map fun (before, after) =>
    (String.ofList before, String.ofList after)

def splitFirstChars (sep : Char) : List Char → Option (List Char × List Char)
  | [] => none
  | c :: cs =>
    if c = sep then some ([], cs)
    else (splitFirstChars sep cs).map fun (before, after) => (c :: before, after)

def splitFirst (sep : Char) (s : String) : Option (String × String) :=
  (splitFirstChars sep s.toList).map fun (before, after) =>
    (String.ofList before, String.ofList after)

def dropStartChars : List Char → List Char → Option (List Char)
  | [], cs => some cs
  | _ :: _, [] => none
  | s :: start, c :: cs => if s = c then dropStartChars start cs else none

def dropStart (start s : String) : Option String :=
  (dropStartChars start.toList s.toList).map String.ofList

def startsWith (start s : String) : Bool := (dropStartChars start.toList s.toList).isSome

def endsWith (ending s : String) : Bool :=
  (dropStartChars ending.toList.reverse s.toList.reverse).isSome

def dropEndWhile (c : Char) (s : String) : String :=
  String.ofList (s.toList.reverse.dropWhile (· = c)).reverse

def dropStartWhile (c : Char) (s : String) : String :=
  String.ofList (s.toList.dropWhile (· = c))

end HookEvents.Text
