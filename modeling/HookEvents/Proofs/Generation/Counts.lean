import HookEvents.Proofs.Generation.Units

namespace HookEvents

theorem forall₂_filterMap {α β : Type} {f : α → Option β} {p : α → Bool}
    (h : ∀ a, p a = (f a).isSome) (as : List α) :
    List.Forall₂ (fun a b => f a = some b) (as.filter p) (as.filterMap f) := by
  induction as with
  | nil => exact .nil
  | cons a as ih =>
    have ha := h a
    cases hf : f a with
    | none =>
      rw [hf, Option.isSome_none] at ha
      rwa [List.filter_cons_of_neg (by simp [ha]), List.filterMap_cons_none hf]
    | some b =>
      rw [hf, Option.isSome_some] at ha
      rw [List.filter_cons_of_pos ha, List.filterMap_cons_some hf]
      exact .cons hf ih

theorem length_eraseDups_eq_iff {κ : Type} [BEq κ] [LawfulBEq κ] (ks : List κ) :
    ks.eraseDups.length = ks.length ↔ ks.Nodup := by
  constructor
  · intro h
    rw [← (eraseDups_sublist ks).eq_of_length h]
    exact nodup_eraseDups ks
  · intro h
    rw [eraseDups_of_nodup h]

theorem unresolved?_eq_some {model : Model} {reference : HookReference} {entry : Unresolved} :
    unresolved? model reference = some entry ↔
      entry.reference = reference ∧ resolve model reference = .error entry.reason := by
  obtain ⟨other, reason⟩ := entry
  rw [unresolved?]
  cases resolve model reference with
  | ok hook => simp
  | error why => simp [eq_comm]

theorem forall₂_hooks (model : Model) (refs : HookReferences) :
    List.Forall₂ (fun reference hook => resolve model reference = .ok hook)
      (resolvedReferences model refs) (resolveAll model refs).hooks := by
  have hsome : ∀ reference, (resolve model reference).isOk = (hook? model reference).isSome := by
    intro reference
    rw [hook?]
    cases resolve model reference <;> rfl
  rw [resolveAll_eq]
  exact (forall₂_filterMap hsome refs.toList).imp fun _ _ => hook?_eq_some.mp

theorem forall₂_unresolved (model : Model) (refs : HookReferences) :
    List.Forall₂
      (fun reference entry => entry.reference = reference ∧
        resolve model reference = .error entry.reason)
      (refs.toList.filter fun reference => !(resolve model reference).isOk)
      (resolveAll model refs).unresolved := by
  have hsome : ∀ reference,
      (!(resolve model reference).isOk) = (unresolved? model reference).isSome := by
    intro reference
    rw [unresolved?]
    cases resolve model reference <;> rfl
  rw [resolveAll_eq]
  exact (forall₂_filterMap hsome refs.toList).imp fun _ _ => unresolved?_eq_some.mp

theorem length_eq_countReasons (resolution : Resolution) :
    resolution.unresolved.length = resolution.countReason .unknownType +
      resolution.countReason .unknownMethod + (resolution.countReason .genericType +
        resolution.countReason .genericMethod) := by
  simp only [Resolution.countReason]
  induction resolution.unresolved with
  | nil => rfl
  | cons entry entries ih =>
    obtain ⟨reference, reason⟩ := entry
    cases reason <;> simp [ih] <;> omega

theorem length_toList_eq (model : Model) (refs : HookReferences) :
    refs.subscribe.size + refs.transform.size =
      (resolveAll model refs).hooks.length + (resolveAll model refs).unresolved.length := by
  have hsplit := List.length_eq_length_filter_add (l := refs.toList)
    fun reference => (resolve model reference).isOk
  have hlength : refs.toList.length = refs.subscribe.size + refs.transform.size :=
    List.length_append
  have hhooks := (forall₂_hooks model refs).length_eq
  have hunresolved := (forall₂_unresolved model refs).length_eq
  rw [resolvedReferences] at hhooks
  omega

theorem methods_ne_nil {hooks : List ResolvedHook} {group : HookGroup}
    (h : group ∈ groupHooks hooks) : group.methods ≠ [] := by
  obtain ⟨⟨hook, hh, hk, -⟩, hnames, -⟩ := mem_groupHooks h
  have hname : hook.method.name ∈ group.methods.map (·.name) := by
    rw [hnames, List.mem_eraseDups]
    exact List.mem_map_of_mem (List.mem_filter.mpr ⟨hh, by simp [hk]⟩)
  intro hnil
  rw [hnil] at hname
  exact List.not_mem_nil hname

theorem length_groupEvents (hooks : List ResolvedHook) :
    ((groupHooks hooks).flatMap HookGroup.events).length =
      (hooks.map ResolvedHook.event).eraseDups.length := by
  apply List.Perm.length_eq
  rw [List.perm_ext_iff_of_nodup (nodup_groupEvents hooks) (nodup_eraseDups _)]
  intro event
  rw [mem_groupEvents, List.mem_eraseDups]

theorem length_groupHooks_le (hooks : List ResolvedHook) :
    (groupHooks hooks).length ≤ ((groupHooks hooks).flatMap HookGroup.events).length := by
  have hall : ∀ group ∈ groupHooks hooks, group.events ≠ [] := fun group hg hnil =>
    methods_ne_nil hg (List.map_eq_nil_iff.mp hnil)
  generalize groupHooks hooks = groups at hall
  induction groups with
  | nil => simp
  | cons group groups ih =>
    have hgroup := List.length_pos_iff.mpr (hall group List.mem_cons_self)
    have hrest := ih fun other ho => hall other (List.mem_cons_of_mem _ ho)
    rw [List.flatMap_cons, List.length_append, List.length_cons]
    omega

theorem members_eq_length_events (model : Model) (config : GeneratorConfig)
    (refs : HookReferences) :
    (generate model config refs).stats.members =
      ((unitGroups model refs).flatMap HookGroup.events).length :=
  (HookGroup.foldl_methods_eq _ 0).trans (Nat.zero_add _)

def eventCount (lines : List String) : Nat := (eventBlocks lines).length

theorem eventCount_lines (config : GeneratorConfig) (group : HookGroup) :
    eventCount (group.lines config) = group.methods.length := by
  rw [eventCount, group.eventBlocks_lines, List.length_map]

theorem nodup_events_iff (model : Model) (refs : HookReferences) :
    ((resolveAll model refs).hooks.map ResolvedHook.event).Nodup ↔
      refs.toList.Pairwise fun earlier later => ∀ hook other,
        resolve model earlier = .ok hook → resolve model later = .ok other →
          hook.event ≠ other.event := by
  rw [List.Nodup, List.pairwise_map, resolveAll_eq, List.pairwise_filterMap]
  simp only [hook?_eq_some]
  constructor
  · exact fun h => h.imp fun hne hook other hh ho => hne hook hh other ho
  · exact fun h => h.imp fun hne hook hh other ho => hne hook other hh ho

theorem countReason_eq (model : Model) (refs : HookReferences) (reason : UnresolvedReason) :
    (resolveAll model refs).countReason reason =
      refs.toList.countP fun reference => decide (resolve model reference = .error reason) := by
  rw [Resolution.countReason, resolveAll_eq, List.countP_filterMap]
  apply List.countP_congr
  intro reference _
  rw [unresolved?]
  cases resolve model reference <;> simp

theorem event_eq_iff {table : TypeTable} {refs : HookReferences} {hook other : ResolvedHook}
    (hh : hook ∈ (resolveAll table.model refs).hooks)
    (ho : other ∈ (resolveAll table.model refs).hooks) :
    hook.event = other.event ↔ hook.kind = other.kind ∧
      hook.declaringType = other.declaringType ∧ hook.method.name = other.method.name := by
  obtain ⟨reference, -, hr⟩ := mem_hooks.mp hh
  obtain ⟨reference', -, hr'⟩ := mem_hooks.mp ho
  obtain ⟨-, -, hentry, -⟩ := resolve_table_ok hr
  obtain ⟨-, -, hentry', -⟩ := resolve_table_ok hr'
  simp only [ResolvedHook.event, Prod.mk.injEq]
  constructor
  · rintro ⟨hk, hname, hm⟩
    rw [ResolvedHook.key, hname] at hentry
    exact ⟨hk, Option.some.inj (hentry.symm.trans hentry'), hm⟩
  · rintro ⟨hk, ht, hm⟩
    exact ⟨hk, congrArg _ ht, hm⟩

/-- How a generation counts its references, units and events. An event is told by the kind of the
hook, the name of the declaring type and that of the method. -/
structure Accounted (model : Model) (config : GeneratorConfig) (refs : HookReferences)
    (generation : Generation) : Prop where
  resolved : List.Forall₂ (fun reference hook => resolve model reference = .ok hook)
    (refs.toList.filter fun reference => (resolve model reference).isOk)
    (resolveAll model refs).hooks
  unresolved : List.Forall₂
    (fun reference entry => entry.reference = reference ∧
      resolve model reference = .error entry.reason)
    (refs.toList.filter fun reference => !(resolve model reference).isOk)
    (resolveAll model refs).unresolved
  unresolved_eq : generation.unresolved = (resolveAll model refs).unresolved
  subscribeReferences_eq : generation.stats.subscribeReferences = refs.subscribe.size
  transformReferences_eq : generation.stats.transformReferences = refs.transform.size
  resolved_eq : generation.stats.resolved = (resolveAll model refs).hooks.length
  unknownTypes_eq : generation.stats.unknownTypes =
    refs.toList.countP fun reference => decide (resolve model reference = .error .unknownType)
  unknownMethods_eq : generation.stats.unknownMethods =
    refs.toList.countP fun reference => decide (resolve model reference = .error .unknownMethod)
  genericSkipped_eq : generation.stats.genericSkipped =
    refs.toList.countP (fun reference => decide (resolve model reference = .error .genericType)) +
      refs.toList.countP fun reference => decide (resolve model reference = .error .genericMethod)
  sum_eq : generation.stats.subscribeReferences + generation.stats.transformReferences =
    generation.stats.resolved + generation.stats.unknownTypes + generation.stats.unknownMethods +
      generation.stats.genericSkipped
  units_eq : generation.stats.units = generation.units.length
  emitted : generation.units = (unitGroups model refs).map (HookGroup.emit config)
  texts_eq : generation.units.map (·.text) = (unitGroups model refs).map fun group =>
    String.join ((group.lines config).map (· ++ "\n"))
  events_eq : ∀ group ∈ unitGroups model refs,
    eventBlocks (group.lines config) = group.methods.map (group.eventBlock config)
  members_eq : generation.stats.members =
    (unitGroups model refs).foldl (fun count group => count + eventCount (group.lines config)) 0
  units_le : generation.stats.units ≤ generation.stats.members
  members_le : generation.stats.members ≤ generation.stats.resolved
  members_eq_resolved_iff : generation.stats.members = generation.stats.resolved ↔
    refs.toList.Pairwise fun earlier later => ∀ hook other,
      resolve model earlier = .ok hook → resolve model later = .ok other →
        hook.event ≠ other.event
  same_type : ∀ table : TypeTable, model = table.model →
    ∀ hook ∈ (resolveAll model refs).hooks, ∀ other ∈ (resolveAll model refs).hooks,
      hook.event = other.event ↔ hook.kind = other.kind ∧
        hook.declaringType = other.declaringType ∧ hook.method.name = other.method.name

theorem generate_accounts (model : Model) (config : GeneratorConfig) (refs : HookReferences) :
    Accounted model config refs (generate model config refs) := by
  let hooks := (resolveAll model refs).hooks
  have hmembers : (generate model config refs).stats.members =
      (hooks.map ResolvedHook.event).eraseDups.length :=
    (members_eq_length_events model config refs).trans (length_groupEvents hooks)
  have hlength : (hooks.map ResolvedHook.event).length = hooks.length := List.length_map _
  exact {
    resolved := forall₂_hooks model refs
    unresolved := forall₂_unresolved model refs
    unresolved_eq := rfl
    subscribeReferences_eq := rfl
    transformReferences_eq := rfl
    resolved_eq := rfl
    unknownTypes_eq := countReason_eq model refs .unknownType
    unknownMethods_eq := countReason_eq model refs .unknownMethod
    genericSkipped_eq := congrArg₂ (· + ·) (countReason_eq model refs .genericType)
      (countReason_eq model refs .genericMethod)
    sum_eq := by
      have htotal := length_toList_eq model refs
      rw [length_eq_countReasons] at htotal
      simp only [generate]
      omega
    units_eq := (List.length_map _).symm
    emitted := rfl
    texts_eq := List.map_map
    events_eq := fun group _ => group.eventBlocks_lines config
    members_eq := by
      simp only [eventCount_lines]
      rfl
    units_le := by
      rw [members_eq_length_events]
      exact length_groupHooks_le hooks
    members_le := by
      change _ ≤ hooks.length
      rw [hmembers, ← hlength]
      exact (eraseDups_sublist _).length_le
    members_eq_resolved_iff := by
      rw [hmembers, ← nodup_events_iff, ← length_eraseDups_eq_iff, hlength]
      rfl
    same_type := by
      rintro table rfl hook hh other ho
      exact event_eq_iff hh ho }

end HookEvents
