import HookEvents.Generation.Basic
import HookEvents.Proofs.Generation.Group
import HookEvents.Proofs.Generation.Resolve
import Mathlib.Data.List.Basic

/-!
Generation does not look at the members of a type beyond the method that a name finds first. Models
that agree on all else give the same files.
-/
namespace HookEvents

def TypeSymbol.bare (symbol : TypeSymbol) : TypeSymbol := { symbol with members := [] }

def ResolvedHook.bare (hook : ResolvedHook) : ResolvedHook :=
  { hook with declaringType := hook.declaringType.bare }

namespace HookGroup

def bare (group : HookGroup) : HookGroup :=
  { group with declaringType := group.declaringType.bare }

theorem bare_addMethod (group : HookGroup) (method : Method) :
    (group.addMethod method).bare = group.bare.addMethod method := by
  rw [addMethod, addMethod]
  change _ = if (group.methods.any fun known => known.name = method.name) = true then _ else _
  split <;> rfl

theorem map_bare_insert (hook : ResolvedHook) (groups : List HookGroup) :
    (keyed.insert hook groups).map bare = keyed.insert hook.bare (groups.map bare) := by
  induction groups with
  | nil => rfl
  | cons group groups ih =>
    rw [Keyed.insert, List.map_cons, Keyed.insert]
    change _ = if keyed.key group = keyed.keyOf hook then _ else _
    split
    · exact congrArg (· :: _) (bare_addMethod group hook.method)
    · rw [List.map_cons, ih]

theorem map_emit_bare (config : GeneratorConfig) (groups : List HookGroup) :
    (groups.map bare).map (emit config) = groups.map (emit config) := List.map_map

theorem foldl_methods_bare (groups : List HookGroup) :
    (groups.map bare).foldl (fun count group => count + group.methods.length) 0 =
      groups.foldl (fun count group => count + group.methods.length) 0 := List.foldl_map

end HookGroup

theorem map_bare_groupHooks (hooks : List ResolvedHook) :
    (groupHooks hooks).map HookGroup.bare = groupHooks (hooks.map ResolvedHook.bare) := by
  have hfold : ∀ groups : List HookGroup,
      (HookGroup.keyed.insertAll groups hooks).map HookGroup.bare =
        HookGroup.keyed.insertAll (groups.map HookGroup.bare) (hooks.map ResolvedHook.bare) := by
    induction hooks with
    | nil => exact fun _ => rfl
    | cons hook hooks ih =>
      intro groups
      refine (ih _).trans ?_
      rw [HookGroup.map_bare_insert]
      rfl
  rw [groupHooks_eq, groupHooks_eq]
  exact hfold []

def SameOutcome (model other : Model) (reference : HookReference) : Prop :=
  (resolve model reference).map ResolvedHook.bare = (resolve other reference).map ResolvedHook.bare

theorem SameOutcome.hook? {model other : Model} {reference : HookReference}
    (h : SameOutcome model other reference) :
    (hook? model reference).map ResolvedHook.bare =
      (HookEvents.hook? other reference).map ResolvedHook.bare := by
  unfold SameOutcome at h
  unfold HookEvents.hook?
  cases hm : resolve model reference <;> cases ho : resolve other reference <;>
    simp_all [Except.map, Except.toOption]

theorem SameOutcome.unresolved? {model other : Model} {reference : HookReference}
    (h : SameOutcome model other reference) :
    unresolved? model reference = HookEvents.unresolved? other reference := by
  unfold SameOutcome at h
  unfold HookEvents.unresolved?
  cases hm : resolve model reference <;> cases ho : resolve other reference <;>
    simp_all [Except.map]

theorem generate_congr {model other : Model} {refs : HookReferences}
    (h : ∀ reference ∈ refs.toList, SameOutcome model other reference) (config : GeneratorConfig) :
    generate model config refs = generate other config refs := by
  have hhooks : (resolveAll model refs).hooks.map ResolvedHook.bare =
      (resolveAll other refs).hooks.map ResolvedHook.bare := by
    simp only [resolveAll_eq, List.map_filterMap]
    exact List.filterMap_congr fun reference hr => (h reference hr).hook?
  have hunresolved : (resolveAll model refs).unresolved = (resolveAll other refs).unresolved := by
    simp only [resolveAll_eq]
    exact List.filterMap_congr fun reference hr => (h reference hr).unresolved?
  have hgroups : (groupHooks (resolveAll model refs).hooks).map HookGroup.bare =
      (groupHooks (resolveAll other refs).hooks).map HookGroup.bare := by
    rw [map_bare_groupHooks, map_bare_groupHooks, hhooks]
  have hunits := congrArg (List.map (HookGroup.emit config)) hgroups
  rw [HookGroup.map_emit_bare, HookGroup.map_emit_bare] at hunits
  have hmembers := congrArg
    (List.foldl (fun count (group : HookGroup) => count + group.methods.length) 0) hgroups
  rw [HookGroup.foldl_methods_bare, HookGroup.foldl_methods_bare] at hmembers
  have hresolved : (resolveAll model refs).hooks.length = (resolveAll other refs).hooks.length := by
    simpa using congrArg List.length hhooks
  have hlength : (groupHooks (resolveAll model refs).hooks).length =
      (groupHooks (resolveAll other refs).hooks).length := by
    simpa using congrArg List.length hgroups
  simp only [generate, Resolution.countReason, hunits, hunresolved, hresolved, hlength, hmembers]

structure TypeSymbol.Alike (symbol other : TypeSymbol) : Prop where
  bare : symbol.bare = other.bare
  methodNamed : ∀ name, symbol.methodNamed name = other.methodNamed name

theorem TypeSymbol.Alike.isGeneric {symbol other : TypeSymbol} (h : symbol.Alike other) :
    symbol.isGeneric = other.isGeneric := by
  have hbare : symbol.bare.isGeneric = other.bare.isGeneric := by rw [h.bare]
  exact hbare

theorem TypeSymbol.Alike.containerNames {symbol other : TypeSymbol} (h : symbol.Alike other) :
    symbol.containerNames = other.containerNames := by
  have hbare : symbol.bare.containerNames = other.bare.containerNames := by rw [h.bare]
  exact hbare

namespace Model

def Alike (model other : Model) : Prop :=
  ∀ name, Option.Rel TypeSymbol.Alike (model name) (other name)

theorem Alike.any_isGeneric {model other : Model} (h : model.Alike other) (name : String) :
    (model name).any TypeSymbol.isGeneric = (other name).any TypeSymbol.isGeneric := by
  have hrel := h name
  generalize model name = entry, other name = otherEntry at hrel
  cases hrel with
  | none => rfl
  | some hs => exact hs.isGeneric

theorem Alike.isOpenIn {model other : Model} (h : model.Alike other) {symbol entry : TypeSymbol}
    (hs : symbol.Alike entry) : symbol.isOpenIn model = entry.isOpenIn other := by
  rw [TypeSymbol.isOpenIn, TypeSymbol.isOpenIn, hs.isGeneric, hs.containerNames,
    funext h.any_isGeneric]

theorem Alike.sameOutcome {model other : Model} (h : model.Alike other)
    (reference : HookReference) : SameOutcome model other reference := by
  unfold SameOutcome resolve
  -- Both entries become variables, as the cases of the relation replace both.
  have hrel := h reference.typeName
  generalize model reference.typeName = entry, other reference.typeName = otherEntry at hrel ⊢
  cases hrel with
  | none => rfl
  | @some symbol entry hs =>
    dsimp only
    rw [hs.methodNamed, h.isOpenIn hs]
    cases entry.methodNamed reference.methodName with
    | none => rfl
    | some method =>
      dsimp only
      split
      · rfl
      · split
        · rfl
        · simp only [Except.map, ResolvedHook.bare, hs.bare]

theorem Alike.generate_eq {model other : Model} (h : model.Alike other) (config : GeneratorConfig)
    (refs : HookReferences) : generate model config refs = generate other config refs :=
  generate_congr (fun reference _ => h.sameOutcome reference) config

end Model

end HookEvents
