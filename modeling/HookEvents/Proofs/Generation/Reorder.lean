import HookEvents.Proofs.Generation.Units

/-!
The order in which references are found shows only in the order of the generated files and of the
events in them.
-/
namespace HookEvents

structure UnitParts where
  usings : List String
  namespaceName : String
  levels : List String
  events : List TextBlock
  declares : ∀ event ∈ events, event.isEvent = true ∧ event.lines.length = 2

namespace UnitParts

def lines (config : GeneratorConfig) (parts : UnitParts) : List String :=
  (if config.header then headerLines else []) ++
    (if parts.usings.isEmpty then []
      else parts.usings.map (fun target => "using " ++ target ++ ";") ++ [""]) ++
    block config.indent ("namespace " ++ parts.namespaceName)
      (parts.levels.foldr
        (fun level body => block config.indent ("public static partial class " ++ level) body)
        (separated (parts.events.map fun event => block config.indent event.header event.lines)))

def text (config : GeneratorConfig) (parts : UnitParts) : String :=
  String.join ((parts.lines config).map (· ++ "\n"))

structure Reordered (parts other : UnitParts) : Prop where
  usings : parts.usings = other.usings
  namespaceName : parts.namespaceName = other.namespaceName
  levels : parts.levels = other.levels
  events : parts.events.Perm other.events

end UnitParts

namespace HookGroup

theorem declares_eventBlock (config : GeneratorConfig) (group : HookGroup) (method : Method) :
    (group.eventBlock config method).isEvent = true ∧
      (group.eventBlock config method).lines.length = 2 := by
  refine ⟨?_, rfl⟩
  simp only [TextBlock.isEvent, eventBlock, String.append_assoc]
  exact startsWith_append _ _

def parts (config : GeneratorConfig) (group : HookGroup) : UnitParts :=
  { usings := group.declaringType.usings
    namespaceName := group.namespaceName
    levels := group.declaringType.nestingChain
    events := group.methods.map (group.eventBlock config)
    declares := by
      intro event he
      obtain ⟨method, -, rfl⟩ := List.mem_map.mp he
      exact group.declares_eventBlock config method }

theorem text_emit (config : GeneratorConfig) (group : HookGroup) :
    (group.emit config).text = (group.parts config).text config := by
  have hevents : group.methods.map (eventLines config group.kind group.declaringType) =
      (group.parts config).events.map fun event => block config.indent event.header event.lines := by
    rw [parts, List.map_map]
    apply List.map_congr_left
    intro method _
    exact group.eventLines_eq_block config method
  rw [emit, lines, classLines, hevents]
  rfl

theorem reordered_parts {group other : HookGroup} (hk : group.kind = other.kind)
    (ht : group.declaringType = other.declaringType) (hm : group.methods.Perm other.methods)
    (config : GeneratorConfig) : (group.parts config).Reordered (other.parts config) := by
  obtain ⟨kind, symbol, methods⟩ := group
  obtain rfl : kind = other.kind := hk
  obtain rfl : symbol = other.declaringType := ht
  exact ⟨rfl, rfl, rfl, hm.map _⟩

end HookGroup

theorem eraseDups_perm {κ : Type} [BEq κ] [LawfulBEq κ] {ks ks' : List κ} (h : ks.Perm ks') :
    ks.eraseDups.Perm ks'.eraseDups := by
  apply (List.perm_ext_iff_of_nodup (nodup_eraseDups ks) (nodup_eraseDups ks')).mpr
  intro k
  rw [List.mem_eraseDups, List.mem_eraseDups, h.mem_iff]

theorem unitGroups_methods {table : TypeTable} {refs : HookReferences} {group : HookGroup}
    (hg : group ∈ unitGroups table.model refs) :
    group.methods = (group.methods.map (·.name)).filterMap group.declaringType.methodNamed := by
  rw [List.filterMap_map]
  have hsome : ∀ method ∈ group.methods,
      (group.declaringType.methodNamed ∘ (·.name)) method = some method := by
    intro method hm
    exact unitGroups_method hg hm
  rw [List.filterMap_congr hsome, List.filterMap_some]

def HookReferences.Reordered (refs other : HookReferences) : Prop :=
  ∀ kind, (refs.ofKind kind).references.Perm (other.ofKind kind).references

theorem HookReferences.Reordered.toList {refs other : HookReferences} (h : refs.Reordered other) :
    refs.toList.Perm other.toList := (h .subscribe).append (h .transform)

section

variable {table : TypeTable} {refs other : HookReferences} (h : refs.Reordered other)
include h

theorem resolvedReferences_perm :
    (resolvedReferences table.model refs).Perm (resolvedReferences table.model other) :=
  h.toList.filter _

theorem keys_unitGroups_perm :
    ((unitGroups table.model refs).map HookGroup.key).Perm
      ((unitGroups table.model other).map HookGroup.key) := by
  rw [keys_unitGroups, keys_unitGroups]
  apply eraseDups_perm
  exact (resolvedReferences_perm h).map _

theorem events_unitGroups_perm :
    ((unitGroups table.model refs).flatMap HookGroup.events).Perm
      ((unitGroups table.model other).flatMap HookGroup.events) := by
  apply (List.perm_ext_iff_of_nodup (nodup_events table refs) (nodup_events table other)).mpr
  intro event
  rw [mem_events, mem_events]
  apply exists_congr
  intro reference
  rw [h.toList.mem_iff]

theorem methods_unitGroups_perm {group group' : HookGroup}
    (hg : group ∈ unitGroups table.model refs) (hg' : group' ∈ unitGroups table.model other)
    (hk : group.key = group'.key) :
    group.declaringType = group'.declaringType ∧ group.methods.Perm group'.methods := by
  have htype : group.declaringType = group'.declaringType := by
    have hentry := unitGroups_entry hg
    rw [hk, unitGroups_entry hg'] at hentry
    exact (Option.some.inj hentry).symm
  have hnames : (group.methods.map (·.name)).Perm (group'.methods.map (·.name)) := by
    rw [unitGroups_methodNames hg, unitGroups_methodNames hg', hk]
    apply eraseDups_perm
    exact ((resolvedReferences_perm h).filter _).map _
  refine ⟨htype, ?_⟩
  rw [unitGroups_methods hg, unitGroups_methods hg', htype]
  exact hnames.filterMap _

theorem stats_reordered (config : GeneratorConfig) :
    (generate table.model config refs).stats = (generate table.model config other).stats := by
  have hhooks : (resolveAll table.model refs).hooks.length =
      (resolveAll table.model other).hooks.length := by
    simp only [resolveAll_eq]
    exact (h.toList.filterMap (hook? table.model)).length_eq
  have hreason : ∀ reason, (resolveAll table.model refs).countReason reason =
      (resolveAll table.model other).countReason reason := by
    intro reason
    simp only [resolveAll_eq]
    exact (h.toList.filterMap (unresolved? table.model)).countP_eq _
  have hunits : (unitGroups table.model refs).length = (unitGroups table.model other).length := by
    simpa using (keys_unitGroups_perm h).length_eq
  have hmembers : (unitGroups table.model refs).foldl (fun count group =>
        count + group.methods.length) 0 =
      (unitGroups table.model other).foldl (fun count group => count + group.methods.length) 0 := by
    rw [HookGroup.foldl_methods_eq, HookGroup.foldl_methods_eq,
      (events_unitGroups_perm h).length_eq]
  simp only [generate, hreason, GenerationStats.mk.injEq, true_and]
  exact ⟨(h .subscribe).length_eq, (h .transform).length_eq, hhooks, hunits, hmembers⟩

end

structure Generation.Reordered (config : GeneratorConfig) (one other : Generation) : Prop where
  names : (one.units.map (·.name)).Perm (other.units.map (·.name))
  names_nodup : (one.units.map (·.name)).Nodup
  units : ∀ unit ∈ one.units, ∀ unit' ∈ other.units, unit.name = unit'.name →
    ∃ parts parts' : UnitParts, unit.text = parts.text config ∧ unit'.text = parts'.text config ∧
      parts.Reordered parts'
  unresolved : one.unresolved.Perm other.unresolved
  stats : one.stats = other.stats

theorem generate_reordered (table : TypeTable) (config : GeneratorConfig)
    {refs other : HookReferences} (h : refs.Reordered other) :
    Generation.Reordered config (generate table.model config refs)
      (generate table.model config other) where
  names := by
    rw [names_units, names_units]
    exact (keys_unitGroups_perm h).map _
  names_nodup := names_units_nodup table refs config
  units := by
    intro unit hu unit' hu' hn
    obtain ⟨group, hg, rfl⟩ := List.mem_map.mp hu
    obtain ⟨group', hg', rfl⟩ := List.mem_map.mp hu'
    have hk : group.key = group'.key := by
      apply HookGroup.unitName_injective
      exact (group.unitName_eq.symm.trans hn).trans group'.unitName_eq
    obtain ⟨ht, hm⟩ := methods_unitGroups_perm h hg hg' hk
    exact ⟨group.parts config, group'.parts config, group.text_emit config, group'.text_emit config,
      HookGroup.reordered_parts (congrArg Prod.fst hk) ht hm config⟩
  unresolved := by
    simp only [generate, resolveAll_eq]
    exact h.toList.filterMap _
  stats := stats_reordered h config

theorem generate_reordered_interleaved :
    let table := TypeTable.ofList [
      { name := "Player", namespaceName := some "Game", usings := ["System"],
        members := [.method { name := "Hurt", parameters := ["int"] },
          .method { name := "Hurt" }, .method { name := "Update" }] },
      { name := "World", members := [.method { name := "Tick", isStatic := true }] }]
    let hurt : HookReference := ⟨.subscribe, "On.Game.Player.Hurt", "Game.Player", "Hurt"⟩
    let update : HookReference := ⟨.subscribe, "On.Game.Player.Update", "Game.Player", "Update"⟩
    let tick : HookReference := ⟨.subscribe, "On.World.Tick", "World", "Tick"⟩
    let missing : HookReference := ⟨.subscribe, "On.Game.Enemy.Hurt", "Game.Enemy", "Hurt"⟩
    let body : HookReference := ⟨.transform, "IL.World.Tick", "World", "Tick"⟩
    let refs := HookReferences.ofList [hurt, tick, missing, update, body]
    let other := HookReferences.ofList [tick, update, body, missing, hurt]
    refs.Reordered other ∧
    (generate table.model {} refs).units.map (·.name) = ["On.Game.Player", "On.World", "IL.World"] ∧
    (generate table.model {} other).units.map (·.name) = ["On.World", "On.Game.Player", "IL.World"] ∧
    Generation.Reordered {} (generate table.model {} refs) (generate table.model {} other) := by
  intro table hurt update tick missing body refs other
  have hrefs : refs.Reordered other := by
    intro kind
    cases kind <;> decide +kernel
  exact ⟨hrefs, by decide +kernel, by decide +kernel, generate_reordered table {} hrefs⟩

end HookEvents
