/-!
JSON values. An object keeps its entries in the order of the text, repeated keys included.
-/
namespace HookEvents

inductive Json where
  | null
  | bool (b : Bool)
  /-- A whole number from 0 to 2^64 - 1. -/
  | natural (n : Nat)
  /-- Any other number, as it is written. -/
  | number (literal : String)
  | text (s : String)
  /-- A literal without a value: half of a surrogate pair, or a number beyond every float. -/
  | broken
  | array (items : List Json)
  | object (entries : List (String × Json))
  deriving Inhabited

namespace Json

def valuesOf (key : String) (entries : List (String × Json)) : List Json :=
  (entries.filter fun entry => entry.1 = key).map (·.2)

def lastOf? (key : String) (entries : List (String × Json)) : Option Json :=
  (valuesOf key entries).getLast?

mutual

def depth : Json → Nat
  | .array items => depthItems items + 1
  | .object entries => depthEntries entries + 1
  | _ => 0

def depthItems : List Json → Nat
  | [] => 0
  | item :: items => max item.depth (depthItems items)

def depthEntries : List (String × Json) → Nat
  | [] => 0
  | (_, item) :: entries => max item.depth (depthEntries entries)

end

mutual

/-- Whether every literal has a value. -/
def sound : Json → Bool
  | .broken => false
  | .array items => soundItems items
  | .object entries => soundEntries entries
  | _ => true

def soundItems : List Json → Bool
  | [] => true
  | item :: items => item.sound && soundItems items

def soundEntries : List (String × Json) → Bool
  | [] => true
  | (_, item) :: entries => item.sound && soundEntries entries

end

def sortEntries (entries : List (String × Json)) : List (String × Json) :=
  entries.mergeSort fun a b => !(b.1 < a.1)

mutual

def sorted : Json → Json
  | .array items => .array (sortedItems items)
  | .object entries => .object (sortEntries (sortedEntries entries))
  | scalar => scalar

def sortedItems : List Json → List Json
  | [] => []
  | item :: items => item.sorted :: sortedItems items

def sortedEntries : List (String × Json) → List (String × Json)
  | [] => []
  | (key, item) :: entries => (key, item.sorted) :: sortedEntries entries

end

end Json
end HookEvents
