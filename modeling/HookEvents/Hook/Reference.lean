import HookEvents.Text.Blank
import HookEvents.Text.Split

/-!
References to hooks: `On.Game.Player.Update` wraps calls of a method, `IL.Game.Player.Update`
changes its body. The first segment gives the kind, the last one the method, and those between
them the declaring type.
-/
namespace HookEvents

open Text

inductive HookKind where
  | subscribe
  | transform
  deriving DecidableEq, Repr, Inhabited

namespace HookKind

def root : HookKind → String
  | .subscribe => "On"
  | .transform => "IL"

def name : HookKind → String
  | .subscribe => "subscribe"
  | .transform => "transform"

def all : List HookKind := [.subscribe, .transform]

def ofName? (s : String) : Option HookKind := all.find? fun kind => kind.name = s

def classify (text : String) : Option (HookKind × String) :=
  all.findSome? fun kind => (dropStart (kind.root ++ ".") text).map fun rest => (kind, rest)

end HookKind

structure HookReference where
  kind : HookKind
  /-- The trimmed text, by which references are told apart. -/
  text : String
  typeName : String
  methodName : String
  deriving DecidableEq, Repr, Inhabited

namespace HookReference

/-- Accepts `On.` or `IL.`, a type name of one or more segments, and a method name; blanks around
the segments are dropped, and no segment may be blank. -/
def parse (text : String) : Option HookReference := do
  let text := trim text
  let (kind, rest) ← HookKind.classify text
  let (typePath, method) ← splitLast '.' rest
  let typeName := join "." ((split '.' typePath).map trim)
  let methodName := trim method
  if methodName = "" || (split '.' typeName).any (· = "") then none
  else some { kind, text, typeName, methodName }

end HookReference
end HookEvents
