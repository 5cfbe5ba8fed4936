import HookEvents.Generation.Resolve

namespace HookEvents

/-- The hooks that go into one generated file. -/
structure HookGroup where
  kind : HookKind
  declaringType : TypeSymbol
  methods : List Method := []
  deriving DecidableEq, Repr, Inhabited

namespace HookGroup

def unitName (group : HookGroup) : String :=
  Text.join "." (group.kind.root ::
    (group.declaringType.namespaceName.toList ++ group.declaringType.nestingChain))

def addMethod (group : HookGroup) (method : Method) : HookGroup :=
  if group.methods.any fun known => known.name = method.name then group
  else { group with methods := group.methods ++ [method] }

def key (group : HookGroup) : HookKind × String :=
  (group.kind, group.declaringType.qualifiedName)

theorem key_addMethod (group : HookGroup) (method : Method) :
    (group.addMethod method).key = group.key := by
  rw [addMethod]
  split <;> rfl

end HookGroup

def ResolvedHook.key (hook : ResolvedHook) : HookKind × String :=
  (hook.kind, hook.declaringType.qualifiedName)

/-- Groups in the order of their first hook, and the position of each under its key. -/
structure HookGroups where
  groups : List HookGroup := []
  slots : List ((HookKind × String) × Nat) := []
  slots_eq : slots = (groups.map HookGroup.key).zipIdx := by rfl
  keys_nodup : (groups.map HookGroup.key).Nodup := by exact List.nodup_nil

namespace HookGroups

theorem slots_lookup_eq_none {table : HookGroups} {key : HookKind × String} :
    table.slots.lookup key = none ↔ key ∉ table.groups.map HookGroup.key := by
  rw [table.slots_eq]
  exact lookup_zipIdx_eq_none

def append (table : HookGroups) (hook : ResolvedHook) (h : table.slots.lookup hook.key = none) :
    HookGroups where
  groups := table.groups ++ [{ kind := hook.kind, declaringType := hook.declaringType }]
  slots := table.slots ++ [(hook.key, table.groups.length)]
  slots_eq := by
    rw [List.map_append, List.zipIdx_append, ← table.slots_eq, List.length_map, Nat.zero_add]
    rfl
  keys_nodup := by
    rw [List.map_append, List.nodup_append]
    refine ⟨table.keys_nodup, by simp, ?_⟩
    rintro key hkey other hother rfl
    obtain rfl : key = hook.key := List.mem_singleton.mp hother
    exact slots_lookup_eq_none.mp h hkey

def slotFor (table : HookGroups) (hook : ResolvedHook) : HookGroups × Nat :=
  match h : table.slots.lookup hook.key with
  | some slot => (table, slot)
  | none => (table.append hook h, table.groups.length)

theorem keys_modify (groups : List HookGroup) (slot : Nat) (method : Method) :
    (groups.modify slot (·.addMethod method)).map HookGroup.key = groups.map HookGroup.key := by
  apply List.ext_getElem?
  intro i
  rw [List.getElem?_map, List.getElem?_map, List.getElem?_modify]
  cases groups[i]? with
  | none => rfl
  | some group =>
    by_cases hi : slot = i
    · simp [if_pos hi, HookGroup.key_addMethod]
    · simp [if_neg hi]

def addMethodAt (table : HookGroups) (slot : Nat) (method : Method) : HookGroups where
  groups := table.groups.modify slot (·.addMethod method)
  slots := table.slots
  slots_eq := by rw [keys_modify, table.slots_eq]
  keys_nodup := by rw [keys_modify]; exact table.keys_nodup

def insert (table : HookGroups) (hook : ResolvedHook) : HookGroups :=
  let (table, slot) := table.slotFor hook
  table.addMethodAt slot hook.method

end HookGroups

def groupHooks (hooks : List ResolvedHook) : List HookGroup :=
  (hooks.foldl HookGroups.insert {}).groups

end HookEvents
