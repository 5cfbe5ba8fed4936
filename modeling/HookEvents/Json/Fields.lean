import HookEvents.Json.Basic

/-!
Decoding records. An object may be replaced by the array of its fields, where fields at the end
that have a default may be missing; unknown fields are ignored; a field given twice is refused.
-/
namespace HookEvents

open Json

inductive Fields where
  | named (entries : List (String × Json))
  | listed (items : List Json)

namespace Fields

def ofJson? : Json → Option Fields
  | .object entries => some (.named entries)
  | .array items => some (.listed items)
  | _ => none

def value? (fields : Fields) (name : String) (position : Nat) : Option (Option Json) :=
  match fields with
  | .listed items => some items[position]?
  | .named entries =>
    match valuesOf name entries with
    | [] => some none
    | [value] => some (some value)
    | _ => none

def required {α : Type} (fields : Fields) (name : String) (position : Nat)
    (decode : Json → Option α) : Option α := do
  let value ← fields.value? name position
  decode (← value)

def optional {α : Type} (fields : Fields) (name : String) (position : Nat)
    (decode : Json → Option α) (default : α) : Option α := do
  match ← fields.value? name position with
  | some value => decode value
  | none => return default

def fits (fields : Fields) (count : Nat) : Bool :=
  match fields with
  | .listed items => items.length ≤ count
  | .named _ => true

end Fields

namespace Json

def text? : Json → Option String
  | .text s => some s
  | _ => none

def bool? : Json → Option Bool
  | .bool b => some b
  | _ => none

def natural? : Json → Option Nat
  | .natural n => some n
  | _ => none

def nullable? {α : Type} (decode : Json → Option α) : Json → Option (Option α)
  | .null => some none
  | value => (decode value).map some

def list? {α : Type} (decode : Json → Option α) : Json → Option (List α)
  | .array items => items.mapM decode
  | _ => none

end Json

end HookEvents
