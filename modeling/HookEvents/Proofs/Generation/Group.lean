import HookEvents.Generation.Group
import HookEvents.Proofs.Keyed
import HookEvents.Proofs.Text.Split

namespace HookEvents

open Text

def ResolvedHook.event (hook : ResolvedHook) : HookKind × String × String :=
  (hook.kind, hook.declaringType.qualifiedName, hook.method.name)

namespace HookGroup

def events (group : HookGroup) : List (HookKind × String × String) :=
  group.methods.map fun method => (group.kind, group.declaringType.qualifiedName, method.name)

theorem addMethod_kind (group : HookGroup) (method : Method) :
    (group.addMethod method).kind = group.kind := by
  rw [addMethod]
  split <;> rfl

theorem addMethod_declaringType (group : HookGroup) (method : Method) :
    (group.addMethod method).declaringType = group.declaringType := by
  rw [addMethod]
  split <;> rfl

theorem addMethod_methods (group : HookGroup) (method : Method) :
    (group.addMethod method).methods = (Keyed.first Method.name).insert method group.methods := by
  have hmem : method.name ∈ group.methods.map (·.name) ↔
      (group.methods.any fun known => known.name = method.name) = true := by simp
  rw [addMethod, Keyed.first_insert]
  simp only [hmem]
  split <;> rfl

def ofHook (hook : ResolvedHook) : HookGroup :=
  { kind := hook.kind, declaringType := hook.declaringType, methods := [hook.method] }

def keyed : Keyed ResolvedHook HookGroup (HookKind × String) where
  key := key
  keyOf := ResolvedHook.key
  make := ofHook
  update group hook := group.addMethod hook.method
  key_make _ := rfl
  key_update group hook := group.key_addMethod hook.method

theorem foldl_addMethod (group : HookGroup) (hooks : List ResolvedHook) :
    let last := hooks.foldl keyed.update group
    last.kind = group.kind ∧ last.declaringType = group.declaringType ∧
      last.methods = (Keyed.first Method.name).insertAll group.methods (hooks.map (·.method)) := by
  induction hooks generalizing group with
  | nil => exact ⟨rfl, rfl, rfl⟩
  | cons hook hooks ih =>
    obtain ⟨hk, ht, hm⟩ := ih (group.addMethod hook.method)
    refine ⟨hk.trans (addMethod_kind ..), ht.trans (addMethod_declaringType ..), hm.trans ?_⟩
    rw [addMethod_methods]
    rfl

theorem unitName_eq (group : HookGroup) :
    group.unitName = group.key.1.root ++ "." ++ group.key.2 := by
  rw [unitName, join_cons _ _ (by simp [TypeSymbol.nestingChain])]
  rfl

theorem unitName_injective : Function.Injective
    fun key : HookKind × String => key.1.root ++ "." ++ key.2 := by
  rintro ⟨kind, name⟩ ⟨kind', name'⟩ h
  cases kind <;> cases kind' <;> simp_all [HookKind.root, ← String.toList_inj]

end HookGroup

namespace HookGroups

theorem slots_lookup_eq_some {table : HookGroups} {key : HookKind × String} {slot : Nat} :
    table.slots.lookup key = some slot ↔ (table.groups.map HookGroup.key)[slot]? = some key := by
  rw [table.slots_eq]
  exact lookup_zipIdx_eq_some table.keys_nodup

theorem groups_insert (table : HookGroups) (hook : ResolvedHook) :
    (table.insert hook).groups = HookGroup.keyed.insert hook table.groups := by
  change (table.slotFor hook).1.groups.modify (table.slotFor hook).2 (·.addMethod hook.method) = _
  rw [slotFor]
  split
  next slot hl =>
    exact (HookGroup.keyed.insert_eq_modify table.keys_nodup (slots_lookup_eq_some.mp hl)).symm
  next hl =>
    rw [HookGroup.keyed.insert_of_not_mem (slots_lookup_eq_none.mp hl)]
    simp [append, List.modify_eq_take_cons_drop, HookGroup.addMethod, HookGroup.keyed,
      HookGroup.ofHook]

theorem groups_foldl_insert (table : HookGroups) (hooks : List ResolvedHook) :
    (hooks.foldl insert table).groups = HookGroup.keyed.insertAll table.groups hooks := by
  induction hooks generalizing table with
  | nil => rfl
  | cons hook hooks ih =>
    rw [List.foldl_cons, ih, groups_insert]
    rfl

end HookGroups

theorem groupHooks_eq (hooks : List ResolvedHook) :
    groupHooks hooks = HookGroup.keyed.insertAll [] hooks := HookGroups.groups_foldl_insert {} hooks

theorem keys_groupHooks (hooks : List ResolvedHook) :
    (groupHooks hooks).map HookGroup.key = (hooks.map ResolvedHook.key).eraseDups := by
  rw [groupHooks_eq]
  exact HookGroup.keyed.keys_insertAll_nil hooks

theorem mem_groupHooks {hooks : List ResolvedHook} {group : HookGroup}
    (h : group ∈ groupHooks hooks) :
    (∃ hook ∈ hooks, hook.key = group.key ∧ hook.declaringType = group.declaringType) ∧
      group.methods.map (·.name) =
        ((hooks.filter (·.key = group.key)).map (·.method.name)).eraseDups ∧
      ∀ method ∈ group.methods, ∃ hook ∈ hooks, hook.key = group.key ∧ hook.method = method := by
  have hn : ((groupHooks hooks).map HookGroup.keyed.key).Nodup :=
    keys_groupHooks hooks ▸ nodup_eraseDups _
  have hget : HookGroup.keyed.gather none (hooks.filter (·.key = group.key)) = some group := by
    rw [← HookGroup.keyed.get?_key hn h, groupHooks_eq, HookGroup.keyed.get?_insertAll]
    rfl
  have hmem (hook : ResolvedHook) :
      hook ∈ hooks.filter (·.key = group.key) ↔ hook ∈ hooks ∧ hook.key = group.key := by simp
  generalize hooks.filter (·.key = group.key) = own at hget hmem
  cases own with
  | nil => exact absurd hget (by simp [Keyed.gather])
  | cons first rest =>
    have hgroup : rest.foldl HookGroup.keyed.update (HookGroup.ofHook first) = group :=
      Option.some.inj hget
    obtain ⟨-, ht, hm⟩ := (HookGroup.ofHook first).foldl_addMethod rest
    rw [hgroup] at ht hm
    change _ = (Keyed.first Method.name).insertAll [] ((first :: rest).map (·.method)) at hm
    obtain ⟨hfirst, hkey⟩ := (hmem first).mp (by simp)
    refine ⟨⟨first, hfirst, hkey, ht.symm⟩, ?_, ?_⟩
    · rw [hm]
      refine ((Keyed.first Method.name).keys_insertAll_nil _).trans ?_
      rw [List.map_map]
      rfl
    · intro method hmethod
      rw [hm] at hmethod
      rcases Keyed.mem_of_mem_first hmethod with hin | hin
      · simp at hin
      · obtain ⟨hook, hh, rfl⟩ := List.mem_map.mp hin
        obtain ⟨hhook, hkey⟩ := (hmem hook).mp hh
        exact ⟨hook, hhook, hkey, rfl⟩

end HookEvents
