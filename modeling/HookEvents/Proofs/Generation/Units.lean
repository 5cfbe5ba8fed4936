import HookEvents.Generation.Basic
import HookEvents.Proofs.Generation.Group
import HookEvents.Proofs.Generation.Layout
import HookEvents.Proofs.Generation.Resolve
import HookEvents.Proofs.Hook.References
import Mathlib.Data.List.Nodup

namespace HookEvents

def HookReference.unitKey (reference : HookReference) : HookKind × String :=
  (reference.kind, reference.typeName)

def resolvedReferences (model : Model) (refs : HookReferences) : List HookReference :=
  refs.toList.filter fun reference => (resolve model reference).isOk

def unitGroups (model : Model) (refs : HookReferences) : List HookGroup :=
  groupHooks (resolveAll model refs).hooks

theorem hook?_eq_some {model : Model} {reference : HookReference} {hook : ResolvedHook} :
    hook? model reference = some hook ↔ resolve model reference = .ok hook := by
  cases h : resolve model reference <;> simp [hook?, Except.toOption, h]

theorem mem_resolvedReferences {model : Model} {refs : HookReferences} {reference : HookReference} :
    reference ∈ resolvedReferences model refs ↔
      reference ∈ refs.toList ∧ ∃ hook, resolve model reference = .ok hook := by
  rw [resolvedReferences, List.mem_filter]
  cases resolve model reference <;> simp [Except.isOk, Except.toBool]

theorem mem_hooks {model : Model} {refs : HookReferences} {hook : ResolvedHook} :
    hook ∈ (resolveAll model refs).hooks ↔
      ∃ reference ∈ refs.toList, resolve model reference = .ok hook := by
  simp [resolveAll_eq, hook?_eq_some]

theorem resolve_table_ok {table : TypeTable} {reference : HookReference} {hook : ResolvedHook}
    (h : resolve table.model reference = .ok hook) :
    hook.key = reference.unitKey ∧ hook.method.name = reference.methodName ∧
      table.get? hook.key.2 = some hook.declaringType ∧
      hook.declaringType.methodNamed hook.method.name = some hook.method := by
  obtain ⟨hk, ht, hm, -, -⟩ := resolve_eq_ok_iff.mp h
  have hname : hook.declaringType.qualifiedName = reference.typeName :=
    TypeTable.qualifiedName_of_get? ht
  have hmethod : hook.method.name = reference.methodName := by simpa using List.find?_some hm
  refine ⟨by rw [ResolvedHook.key, HookReference.unitKey, hk, hname], hmethod, ?_, hmethod ▸ hm⟩
  rw [ResolvedHook.key, hname]
  exact ht

theorem map_filter_hooks {γ : Type} (table : TypeTable) (refs : HookReferences)
    (p : HookKind × String → Bool) (f : HookKind × String → String → γ) :
    ((resolveAll table.model refs).hooks.filter fun hook => p hook.key).map
        (fun hook => f hook.key hook.method.name) =
      ((resolvedReferences table.model refs).filter fun reference => p reference.unitKey).map
        (fun reference => f reference.unitKey reference.methodName) := by
  simp only [resolveAll_eq, resolvedReferences]
  induction refs.toList with
  | nil => rfl
  | cons reference references ih =>
    cases h : resolve table.model reference with
    | error reason =>
      simpa [hook?, Except.toOption, Except.isOk, Except.toBool, h] using ih
    | ok hook =>
      obtain ⟨hk, hm, -⟩ := resolve_table_ok h
      by_cases hp : p reference.unitKey <;>
        simpa [hook?, Except.toOption, Except.isOk, Except.toBool, h, hk, hm, hp] using ih

theorem keys_unitGroups (table : TypeTable) (refs : HookReferences) :
    (unitGroups table.model refs).map HookGroup.key =
      ((resolvedReferences table.model refs).map HookReference.unitKey).eraseDups := by
  have hkeys := map_filter_hooks table refs (fun _ => true) (fun key _ => key)
  simp only [List.filter_true] at hkeys
  rw [unitGroups, keys_groupHooks, hkeys]

theorem unitGroups_entry {table : TypeTable} {refs : HookReferences} {group : HookGroup}
    (h : group ∈ unitGroups table.model refs) :
    table.get? group.key.2 = some group.declaringType := by
  obtain ⟨⟨hook, hh, hk, ht⟩, -, -⟩ := mem_groupHooks h
  obtain ⟨reference, -, hr⟩ := mem_hooks.mp hh
  obtain ⟨-, -, hentry, -⟩ := resolve_table_ok hr
  rwa [hk, ht] at hentry

theorem unitGroups_methodNames {table : TypeTable} {refs : HookReferences} {group : HookGroup}
    (h : group ∈ unitGroups table.model refs) :
    group.methods.map (·.name) = (((resolvedReferences table.model refs).filter
      (·.unitKey = group.key)).map (·.methodName)).eraseDups := by
  obtain ⟨-, hnames, -⟩ := mem_groupHooks h
  rw [hnames]
  exact congrArg List.eraseDups
    (map_filter_hooks table refs (fun key => key = group.key) (fun _ name => name))

theorem unitGroups_method {table : TypeTable} {refs : HookReferences} {group : HookGroup}
    (h : group ∈ unitGroups table.model refs) {method : Method} (hm : method ∈ group.methods) :
    group.declaringType.methodNamed method.name = some method := by
  obtain ⟨-, -, hmethods⟩ := mem_groupHooks h
  obtain ⟨hook, hh, hk, rfl⟩ := hmethods method hm
  obtain ⟨reference, -, hr⟩ := mem_hooks.mp hh
  obtain ⟨-, -, hentry, hnamed⟩ := resolve_table_ok hr
  rw [hk, unitGroups_entry h] at hentry
  rwa [← Option.some.inj hentry] at hnamed

theorem HookGroup.foldl_methods_eq (groups : List HookGroup) (count : Nat) :
    groups.foldl (fun count group => count + group.methods.length) count =
      count + (groups.flatMap events).length := by
  induction groups generalizing count with
  | nil => rfl
  | cons group groups ih =>
    rw [List.foldl_cons, ih, List.flatMap_cons, List.length_append, events, List.length_map]
    omega

theorem mem_groupEvents {hooks : List ResolvedHook} {event : HookKind × String × String} :
    event ∈ (groupHooks hooks).flatMap HookGroup.events ↔ event ∈ hooks.map ResolvedHook.event := by
  rw [List.mem_flatMap, List.mem_map]
  constructor
  · rintro ⟨group, hg, he⟩
    obtain ⟨method, hm, rfl⟩ := List.mem_map.mp he
    obtain ⟨-, -, hmethods⟩ := mem_groupHooks hg
    obtain ⟨hook, hh, hk, rfl⟩ := hmethods method hm
    exact ⟨hook, hh, congrArg (fun key => (key.1, key.2, hook.method.name)) hk⟩
  · rintro ⟨hook, hh, rfl⟩
    have hkeys : hook.key ∈ (groupHooks hooks).map HookGroup.key := by
      rw [keys_groupHooks, List.mem_eraseDups]
      exact List.mem_map_of_mem hh
    obtain ⟨group, hg, hk⟩ := List.mem_map.mp hkeys
    obtain ⟨-, hnames, -⟩ := mem_groupHooks hg
    have hname : hook.method.name ∈ group.methods.map (·.name) := by
      rw [hnames, List.mem_eraseDups]
      exact List.mem_map_of_mem (List.mem_filter.mpr ⟨hh, by simp [hk]⟩)
    obtain ⟨method, hm, hn⟩ := List.mem_map.mp hname
    refine ⟨group, hg, List.mem_map.mpr ⟨method, hm, ?_⟩⟩
    rw [hn]
    exact congrArg (fun key => (key.1, key.2, hook.method.name)) hk

theorem nodup_groupEvents (hooks : List ResolvedHook) :
    ((groupHooks hooks).flatMap HookGroup.events).Nodup := by
  have hkeys : ((groupHooks hooks).map HookGroup.key).Nodup := by
    rw [keys_groupHooks]
    exact nodup_eraseDups _
  rw [List.nodup_flatMap]
  constructor
  · intro group hg
    obtain ⟨-, hnames, -⟩ := mem_groupHooks hg
    have hnodup : (group.methods.map (·.name)).Nodup := hnames ▸ nodup_eraseDups _
    have hinj : Function.Injective fun name : String =>
        (group.kind, group.declaringType.qualifiedName, name) := fun _ _ he => by simpa using he
    simpa [HookGroup.events, Function.comp_def] using hnodup.map hinj
  · refine (List.pairwise_map.mp hkeys).imp fun hne => ?_
    rintro ⟨kind, name, method⟩ hfirst hsecond
    obtain ⟨_, _, hfirst⟩ := List.mem_map.mp hfirst
    obtain ⟨_, _, hsecond⟩ := List.mem_map.mp hsecond
    apply hne
    grind [HookGroup.key]

theorem mem_events {table : TypeTable} {refs : HookReferences}
    {event : HookKind × String × String} :
    event ∈ (unitGroups table.model refs).flatMap HookGroup.events ↔
      ∃ reference ∈ refs.toList, ∃ hook, resolve table.model reference = .ok hook ∧
        event = (hook.kind, hook.declaringType.qualifiedName, hook.method.name) := by
  rw [unitGroups, mem_groupEvents, List.mem_map]
  constructor
  · rintro ⟨hook, hh, rfl⟩
    obtain ⟨reference, hr, ho⟩ := mem_hooks.mp hh
    exact ⟨reference, hr, hook, ho, rfl⟩
  · rintro ⟨reference, hr, hook, ho, rfl⟩
    exact ⟨hook, mem_hooks.mpr ⟨reference, hr, ho⟩, rfl⟩

theorem nodup_events (table : TypeTable) (refs : HookReferences) :
    ((unitGroups table.model refs).flatMap HookGroup.events).Nodup :=
  nodup_groupEvents _

theorem subscribe_first {refs : HookReferences} (h : refs.Sorted) (table : TypeTable) :
    (unitGroups table.model refs).Pairwise fun earlier later =>
      earlier.kind = .transform → later.kind = .transform := by
  have hrefs : (resolvedReferences table.model refs).Pairwise fun earlier later =>
      earlier.unitKey.1 = .transform → later.unitKey.1 = .transform :=
    h.pairwise_toList.sublist List.filter_sublist
  have hkeys : ((resolvedReferences table.model refs).map HookReference.unitKey).Pairwise
      fun earlier later => earlier.1 = .transform → later.1 = .transform :=
    List.pairwise_map.mpr hrefs
  have hgroups := hkeys.sublist (eraseDups_sublist _)
  rw [← keys_unitGroups] at hgroups
  exact List.pairwise_map.mp hgroups

theorem names_units (table : TypeTable) (refs : HookReferences) (config : GeneratorConfig) :
    (generate table.model config refs).units.map (·.name) =
      ((unitGroups table.model refs).map HookGroup.key).map
        fun key => key.1.root ++ "." ++ key.2 := by
  change ((unitGroups table.model refs).map (HookGroup.emit config)).map (·.name) = _
  rw [List.map_map, List.map_map]
  exact List.map_congr_left fun group _ => group.unitName_eq

theorem names_units_nodup (table : TypeTable) (refs : HookReferences) (config : GeneratorConfig) :
    ((generate table.model config refs).units.map (·.name)).Nodup := by
  rw [names_units, keys_unitGroups]
  exact (nodup_eraseDups _).map HookGroup.unitName_injective

theorem fileNames_units_nodup (table : TypeTable) (refs : HookReferences)
    (config : GeneratorConfig) :
    ((generate table.model config refs).units.map (·.fileName)).Nodup := by
  have hinj : Function.Injective fun name : String => name ++ generatedExtension := by
    intro name name' h
    simpa [← String.toList_inj] using h
  have hnames := (names_units_nodup table refs config).map hinj
  rwa [List.map_map] at hnames

/-- The units are those of the references that resolve, and the events in their text those of the
methods that these references name. -/
structure GenerationExact (table : TypeTable) (symbols : List TypeSymbol) (refs : HookReferences)
    (references : List HookReference) (config : GeneratorConfig) : Prop where
  inserted : ∀ kind, (refs.ofKind kind).references =
    (references.filter (·.kind = kind)).eraseDupsBy fun a b => a.text == b.text
  target : ∀ reference ∈ resolvedReferences table.model refs, ∃ hook,
    resolve table.model reference = .ok hook ∧ hook.kind = reference.kind ∧
      hook.declaringType.qualifiedName = reference.typeName ∧
      hook.method.name = reference.methodName
  units_eq : (generate table.model config refs).units =
    (unitGroups table.model refs).map (HookGroup.emit config)
  keys_eq : (unitGroups table.model refs).map HookGroup.key =
    ((resolvedReferences table.model refs).map HookReference.unitKey).eraseDups
  subscribe_first : (unitGroups table.model refs).Pairwise fun earlier later =>
    earlier.kind = .transform → later.kind = .transform
  names_eq : (generate table.model config refs).units.map (·.name) =
    ((unitGroups table.model refs).map HookGroup.key).map fun key => key.1.root ++ "." ++ key.2
  names_nodup : ((generate table.model config refs).units.map (·.name)).Nodup
  fileNames_nodup : ((generate table.model config refs).units.map (·.fileName)).Nodup
  entry : ∀ group ∈ unitGroups table.model refs,
    table.get? group.declaringType.qualifiedName = some group.declaringType
  methodNames : ∀ group ∈ unitGroups table.model refs, group.methods.map (·.name) =
    (((resolvedReferences table.model refs).filter (·.unitKey = group.key)).map
      (·.methodName)).eraseDups
  firstMethod : ∀ group ∈ unitGroups table.model refs, ∀ method ∈ group.methods,
    (((symbols.filter (·.qualifiedName = group.declaringType.qualifiedName)).flatMap
      (·.members)).filterMap Member.method?).find? (·.name = method.name) = some method
  events_nodup : ((unitGroups table.model refs).flatMap HookGroup.events).Nodup
  mem_events : ∀ event, event ∈ (unitGroups table.model refs).flatMap HookGroup.events ↔
    ∃ reference ∈ refs.toList, ∃ hook, resolve table.model reference = .ok hook ∧
      event = (hook.kind, hook.declaringType.qualifiedName, hook.method.name)
  texts_eq : (generate table.model config refs).units.map (·.text) =
    (unitGroups table.model refs).map fun group =>
      String.join ((group.lines config).map (· ++ "\n"))
  emitted : ∀ group ∈ unitGroups table.model refs,
    eventBlocks (group.lines config) = group.methods.map (group.eventBlock config)

theorem generate_exact {table : TypeTable} {symbols : List TypeSymbol} {refs : HookReferences}
    {references : List HookReference} (htable : table.Built symbols)
    (hrefs : refs.Built references) (config : GeneratorConfig) :
    GenerationExact table symbols refs references config where
  inserted := hrefs.references_ofKind
  target reference hr := by
    obtain ⟨-, hook, ho⟩ := mem_resolvedReferences.mp hr
    obtain ⟨hk, hm, -⟩ := resolve_table_ok ho
    obtain ⟨hkind, hname⟩ := Prod.ext_iff.mp hk
    exact ⟨hook, ho, hkind, hname, hm⟩
  units_eq := rfl
  keys_eq := keys_unitGroups table refs
  subscribe_first := subscribe_first hrefs.sorted table
  names_eq := names_units table refs config
  names_nodup := names_units_nodup table refs config
  fileNames_nodup := fileNames_units_nodup table refs config
  entry group hg := unitGroups_entry hg
  methodNames group hg := unitGroups_methodNames hg
  firstMethod group hg method hm := by
    obtain ⟨first, rest, hd, he⟩ := htable.get?_eq_some_iff.mp (unitGroups_entry hg)
    have hnamed := unitGroups_method hg hm
    rw [← he, TypeSymbol.methodNamed, TypeSymbol.methods, TypeSymbol.absorbAll_members,
      ← hd] at hnamed
    exact hnamed
  events_nodup := nodup_events table refs
  mem_events _ := mem_events
  texts_eq := List.map_map
  emitted group _ := group.eventBlocks_lines config

theorem generate_exact_interleaved :
    let symbols : List TypeSymbol := [
      { name := "Player", namespaceName := some "Game",
        members := [.method { name := "Hurt", parameters := ["int"] }] },
      { name := "World", members := [.method { name := "Tick", isStatic := true }] },
      { name := "Player", namespaceName := some "Game",
        members := [.method { name := "Hurt" }, .method { name := "Update" }] }]
    let references := ["IL.World.Tick", "On.Game.Player.Update", "On.World.Tick",
      "On.Game. Player.Update", "On.Game.Player.Hurt",
      "On.Game.Enemy.Hurt"].filterMap HookReference.parse
    let table := TypeTable.ofList symbols
    let refs := HookReferences.ofList references
    (generate table.model {} refs).units.map (·.name) = ["On.Game.Player", "On.World", "IL.World"] ∧
      GenerationExact table symbols refs references {} :=
  ⟨by decide +kernel, generate_exact (TypeTable.built_ofList _) (HookReferences.built_ofList _) {}⟩

end HookEvents
