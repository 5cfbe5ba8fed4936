import HookEvents.CSharp.References
import HookEvents.CSharp.Types

/-!
What a C# text says: the hook references in it and the types it declares. A session keeps the last
syntax tree, so that both can be asked of one text without reading it twice.
-/
namespace HookEvents.CSharp

structure Analysis where
  references : HookReferences := {}
  types : List TypeSymbol := []
  deriving DecidableEq, Repr, Inhabited

def scan (source : String) : HookReferences := collectReferences (parse source)

def types (source : String) : List TypeSymbol := collectTypes (parse source)

def analyze (source : String) : Analysis :=
  let tree := parse source
  { references := collectReferences tree, types := collectTypes tree }

structure Session (κ : Type) where
  last : Option (κ × Node) := none

namespace Session

variable {κ : Type} [DecidableEq κ] (fingerprint : String → κ)

def tree (session : Session κ) (source : String) : Node × Session κ :=
  let fresh := (parse source, { last := some (fingerprint source, parse source) })
  match session.last with
  | some (mark, tree) => if mark = fingerprint source then (tree, session) else fresh
  | none => fresh

def scan (session : Session κ) (source : String) : HookReferences × Session κ :=
  let (tree, session) := session.tree fingerprint source
  (collectReferences tree, session)

def types (session : Session κ) (source : String) : List TypeSymbol × Session κ :=
  let (tree, session) := session.tree fingerprint source
  (collectTypes tree, session)

def analyze (session : Session κ) (source : String) : Analysis × Session κ :=
  let (references, session) := session.scan fingerprint source
  let (types, session) := session.types fingerprint source
  ({ references, types }, session)

end Session
end HookEvents.CSharp
