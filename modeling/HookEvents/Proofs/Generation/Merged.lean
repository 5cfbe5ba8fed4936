import HookEvents.Proofs.Generation.Units
import HookEvents.Proofs.Symbol.ClosedForm

namespace HookEvents

namespace TypeSymbol

theorem absorb_methodNamed (symbol other : TypeSymbol) (name : String) :
    (symbol.absorb other).methodNamed name =
      (symbol.methodNamed name).or (other.methodNamed name) := by
  simp [methodNamed, methods, absorb, List.find?_append]

def absorbEntry (symbol : TypeSymbol) (entry : Option TypeSymbol) : TypeSymbol :=
  entry.elim symbol symbol.absorb

theorem absorbEntry_isGeneric (symbol : TypeSymbol) (entry : Option TypeSymbol) :
    (symbol.absorbEntry entry).isGeneric = (symbol.isGeneric || entry.any isGeneric) := by
  cases entry with
  | none => exact (Bool.or_false _).symm
  | some other => exact symbol.absorb_isGeneric other

theorem absorbEntry_methodNamed {symbol : TypeSymbol} {name : String} {method : Method}
    (h : symbol.methodNamed name = some method) (entry : Option TypeSymbol) :
    (symbol.absorbEntry entry).methodNamed name = some method := by
  cases entry with
  | none => exact h
  | some other =>
    change (symbol.absorb other).methodNamed name = some method
    rw [absorb_methodNamed, h, Option.some_or]

theorem absorbEntry_containerNames (symbol : TypeSymbol) (entry : Option TypeSymbol) :
    (symbol.absorbEntry entry).containerNames = symbol.containerNames := by
  cases entry <;> rfl

end TypeSymbol

theorem TypeTable.get?_merge_of_some {table : TypeTable} (other : TypeTable) {name : String}
    {symbol : TypeSymbol} (h : table.get? name = some symbol) :
    (table.merge other).get? name = some (symbol.absorbEntry (other.get? name)) := by
  rw [get?_merge, h]
  cases other.get? name <;> rfl

theorem any_isGeneric_merge (table other : TypeTable) (name : String) :
    ((table.merge other).get? name).any TypeSymbol.isGeneric =
      ((table.get? name).any TypeSymbol.isGeneric || (other.get? name).any TypeSymbol.isGeneric) := by
  cases ht : table.get? name with
  | none =>
    rw [TypeTable.get?_merge, ht]
    cases other.get? name <;> rfl
  | some symbol =>
    rw [TypeTable.get?_merge_of_some other ht]
    exact symbol.absorbEntry_isGeneric _

def TypeTable.opens (table : TypeTable) (symbol : TypeSymbol) : Bool :=
  (symbol.qualifiedName :: symbol.containerNames).any fun name =>
    (table.get? name).any TypeSymbol.isGeneric

theorem TypeTable.opens_iff {table : TypeTable} {symbol : TypeSymbol} :
    table.opens symbol = true ↔ ∃ name ∈ symbol.qualifiedName :: symbol.containerNames,
      ∃ entry, table.get? name = some entry ∧ entry.typeParameters ≠ [] := by
  simp only [opens, List.any_eq_true, Option.any_eq_true, TypeSymbol.isGeneric, Bool.not_eq_true',
    List.isEmpty_eq_false_iff]

theorem isOpenIn_merge {table other : TypeTable} {symbol : TypeSymbol}
    (h : symbol.isOpenIn table.model = false) :
    (symbol.absorbEntry (other.get? symbol.qualifiedName)).isOpenIn (table.merge other).model =
      other.opens symbol := by
  obtain ⟨hself, haround⟩ := Bool.or_eq_false_iff.mp h
  have hcontainers : ∀ name ∈ symbol.containerNames,
      ((table.merge other).model name).any TypeSymbol.isGeneric =
        (other.get? name).any TypeSymbol.isGeneric := by
    intro name hn
    have hname : (table.get? name).any TypeSymbol.isGeneric = false :=
      Bool.eq_false_iff.mpr (List.any_eq_false.mp haround name hn)
    rw [TypeTable.model, any_isGeneric_merge, hname, Bool.false_or]
  rw [TypeSymbol.isOpenIn, TypeSymbol.absorbEntry_isGeneric, hself, Bool.false_or,
    TypeSymbol.absorbEntry_containerNames, TypeTable.opens, List.any_cons]
  apply congrArg
  rw [Bool.eq_iff_iff, List.any_eq_true, List.any_eq_true]
  exact exists_congr fun name => and_congr_right fun hn => by rw [hcontainers name hn]

theorem resolve_merge_of_ok {table : TypeTable} (other : TypeTable) {reference : HookReference}
    {hook : ResolvedHook} (h : resolve table.model reference = .ok hook) :
    resolve (table.merge other).model reference =
      if other.opens hook.declaringType then .error .genericType
      else .ok { hook with
        declaringType :=
          hook.declaringType.absorbEntry (other.get? hook.declaringType.qualifiedName) } := by
  obtain ⟨hk, ht, hm, ho, hg⟩ := resolve_eq_ok_iff.mp h
  have hname : hook.declaringType.qualifiedName = reference.typeName :=
    TypeTable.qualifiedName_of_get? ht
  rw [resolve, TypeTable.model, TypeTable.get?_merge_of_some other ht, ← hname]
  dsimp only
  rw [TypeSymbol.absorbEntry_methodNamed hm]
  dsimp only
  rw [← TypeTable.model, isOpenIn_merge ho, hg, ← hk]
  rfl

/-- The same method of the same type, to which only members and directives may have been added. -/
structure ResolvedHook.SameTarget (hook later : ResolvedHook) : Prop where
  kind : later.kind = hook.kind
  method : later.method = hook.method
  name : later.declaringType.name = hook.declaringType.name
  namespaceName : later.declaringType.namespaceName = hook.declaringType.namespaceName
  containingTypes : later.declaringType.containingTypes = hook.declaringType.containingTypes
  members : hook.declaringType.members <+: later.declaringType.members
  usings : hook.declaringType.usings <+: later.declaringType.usings

theorem ResolvedHook.sameTarget_absorbEntry (hook : ResolvedHook) (entry : Option TypeSymbol) :
    hook.SameTarget { hook with declaringType := hook.declaringType.absorbEntry entry } := by
  cases entry with
  | none =>
    exact ⟨rfl, rfl, rfl, rfl, rfl, List.prefix_refl _, List.prefix_refl _⟩
  | some other =>
    refine ⟨rfl, rfl, rfl, rfl, rfl, List.prefix_append _ other.members, ?_⟩
    change _ <+: TypeSymbol.addUsings hook.declaringType.usings other.usings
    rw [TypeSymbol.addUsings_eq]
    exact List.prefix_append _ _

theorem eventLines_merge {table : TypeTable} {other : TypeTable} {reference : HookReference}
    {hook : ResolvedHook} (h : resolve table.model reference = .ok hook) {refs : HookReferences}
    {group : HookGroup} (hg : group ∈ unitGroups (table.merge other).model refs)
    (hk : group.key = hook.key) {method : Method} (hm : method ∈ group.methods)
    (hn : method.name = hook.method.name) (config : GeneratorConfig) :
    eventLines config group.kind group.declaringType method =
      eventLines config hook.kind hook.declaringType hook.method := by
  obtain ⟨-, -, ht, hmethod⟩ := resolve_table_ok h
  -- The group has the merged entry of the type, whose first method of that name is the old one.
  have hentry := unitGroups_entry hg
  rw [hk, TypeTable.get?_merge_of_some other ht] at hentry
  have htype := Option.some.inj hentry
  have hsame := unitGroups_method hg hm
  rw [hn, ← htype, TypeSymbol.absorbEntry_methodNamed hmethod] at hsame
  rw [← Option.some.inj hsame, ← htype, show group.kind = hook.kind from congrArg Prod.fst hk]
  cases other.get? hook.key.2 <;> rfl

/-- A table that is merged later leaves a resolved hook as it is, or makes its type generic. -/
theorem resolve_merge_stable (table other : TypeTable) {reference : HookReference}
    {hook : ResolvedHook} (h : resolve table.model reference = .ok hook) :
    let outcome := resolve (table.merge other).model reference
    ((∃ later, outcome = .ok later ∧ hook.SameTarget later) ∨ outcome = .error .genericType) ∧
    (outcome = .error .genericType ↔
      ∃ name ∈ hook.declaringType.qualifiedName :: hook.declaringType.containerNames,
        ∃ entry, other.get? name = some entry ∧ entry.typeParameters ≠ []) ∧
    ∀ refs, ∀ group ∈ unitGroups (table.merge other).model refs, group.key = hook.key →
      ∀ method ∈ group.methods, method.name = hook.method.name → ∀ config,
        eventLines config group.kind group.declaringType method =
          eventLines config hook.kind hook.declaringType hook.method := by
  intro outcome
  have houtcome : outcome = _ := resolve_merge_of_ok other h
  refine ⟨?_, ?_, fun _ _ hg hk _ hm hn => eventLines_merge h hg hk hm hn⟩
  · rw [houtcome]
    split
    · exact Or.inr rfl
    · exact Or.inl ⟨_, rfl, hook.sameTarget_absorbEntry _⟩
  · rw [houtcome, ← TypeTable.opens_iff]
    cases other.opens hook.declaringType <;> simp

theorem resolve_merge_stable_overload :
    let player : TypeSymbol := { name := "Player", namespaceName := some "Game" }
    let hurt : Method := { name := "Hurt", parameters := ["int"] }
    let table := TypeTable.ofList [{ player with members := [.method hurt] }]
    let other := TypeTable.ofList
      [{ name := "Pool", namespaceName := some "Game", typeParameters := ["T"] },
       { player with members := [.method { name := "Hurt" }], usings := ["System"] }]
    let hook : ResolvedHook :=
      { kind := .subscribe, declaringType := { player with members := [.method hurt] }
        method := hurt }
    ∃ later, resolve (table.merge other).model
      ⟨.subscribe, "On.Game.Player.Hurt", "Game.Player", "Hurt"⟩ = .ok later ∧
        hook.SameTarget later := by
  intro player hurt table other hook
  have hresolve : resolve table.model ⟨.subscribe, "On.Game.Player.Hurt", "Game.Player", "Hurt"⟩ =
      .ok hook := toOption_eq_some_iff.mp (by decide +kernel)
  obtain ⟨hsame | hgeneric, hiff, -⟩ := resolve_merge_stable table other hresolve
  · exact hsame
  · rw [hiff, ← TypeTable.opens_iff] at hgeneric
    exact absurd hgeneric (by decide +kernel)

end HookEvents
