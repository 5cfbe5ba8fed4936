import HookEvents.Hook.Reference

namespace HookEvents

/-- References in insertion order, and the texts that were seen. -/
structure ReferenceSet where
  references : List HookReference := []
  seen : List String := []
  seen_eq : seen = references.map (·.text) := by rfl
  seen_nodup : seen.Nodup := by exact List.nodup_nil
  deriving DecidableEq, Repr

namespace ReferenceSet

instance : Inhabited ReferenceSet := ⟨{}⟩

def texts (set : ReferenceSet) : List String := set.references.map (·.text)

def append (set : ReferenceSet) (reference : HookReference) (h : reference.text ∉ set.seen) :
    ReferenceSet where
  references := set.references ++ [reference]
  seen := set.seen ++ [reference.text]
  seen_eq := by rw [set.seen_eq, List.map_append, List.map_singleton]
  seen_nodup := by
    rw [List.nodup_append]
    refine ⟨set.seen_nodup, by simp, ?_⟩
    rintro text ht other ho rfl
    exact h (List.mem_singleton.mp ho ▸ ht)

def insert (set : ReferenceSet) (reference : HookReference) : ReferenceSet × Bool :=
  if h : reference.text ∈ set.seen then (set, false) else (set.append reference h, true)

def add (set : ReferenceSet) (reference : HookReference) : ReferenceSet := (set.insert reference).1

def size (set : ReferenceSet) : Nat := set.references.length

def isEmpty (set : ReferenceSet) : Bool := set.references.isEmpty

end ReferenceSet

structure HookReferences where
  subscribe : ReferenceSet := {}
  transform : ReferenceSet := {}
  deriving DecidableEq, Repr, Inhabited

namespace HookReferences

def ofKind (refs : HookReferences) : HookKind → ReferenceSet
  | .subscribe => refs.subscribe
  | .transform => refs.transform

def insert (refs : HookReferences) (reference : HookReference) : HookReferences × Bool :=
  match reference.kind with
  | .subscribe =>
    let (subscribe, added) := refs.subscribe.insert reference
    ({ refs with subscribe }, added)
  | .transform =>
    let (transform, added) := refs.transform.insert reference
    ({ refs with transform }, added)

def add (refs : HookReferences) (reference : HookReference) : HookReferences :=
  (refs.insert reference).1

def toList (refs : HookReferences) : List HookReference :=
  refs.subscribe.references ++ refs.transform.references

def insertAll (refs : HookReferences) (references : List HookReference) : HookReferences :=
  references.foldl add refs

def ofList (references : List HookReference) : HookReferences := insertAll {} references

def merge (refs other : HookReferences) : HookReferences := refs.insertAll other.toList

def size (refs : HookReferences) : Nat := refs.subscribe.size + refs.transform.size

def isEmpty (refs : HookReferences) : Bool := refs.subscribe.isEmpty && refs.transform.isEmpty

end HookReferences
end HookEvents
