import HookEvents.Proofs.Generation.Alike
import HookEvents.Proofs.Generation.Units

namespace HookEvents

/-- The names that are looked up to resolve a reference: its type, and the types around the one
that is found. -/
def Model.lookups (model : Model) (reference : HookReference) : List String :=
  reference.typeName :: ((model reference.typeName).map TypeSymbol.containerNames).getD []

theorem Model.mem_lookups {model : Model} {reference : HookReference} {name : String} :
    name ∈ model.lookups reference ↔ name = reference.typeName ∨
      ∃ symbol, model reference.typeName = some symbol ∧ name ∈ symbol.containerNames := by
  rw [lookups, List.mem_cons]
  cases model reference.typeName <;> simp

theorem isOpenIn_congr {model other : Model} {symbol : TypeSymbol}
    (h : ∀ name ∈ symbol.containerNames, other name = model name) :
    symbol.isOpenIn other = symbol.isOpenIn model := by
  rw [TypeSymbol.isOpenIn, TypeSymbol.isOpenIn]
  apply congrArg
  rw [Bool.eq_iff_iff, List.any_eq_true, List.any_eq_true]
  apply exists_congr
  intro name
  apply and_congr_right
  intro hn
  rw [h name hn]

theorem resolve_congr {model other : Model} {reference : HookReference}
    (h : ∀ name ∈ model.lookups reference, other name = model name) :
    resolve other reference = resolve model reference := by
  have htype : other reference.typeName = model reference.typeName :=
    h _ (Model.mem_lookups.mpr (Or.inl rfl))
  rw [resolve, resolve, htype]
  cases hm : model reference.typeName with
  | none => rfl
  | some symbol =>
    have hopen : symbol.isOpenIn other = symbol.isOpenIn model := by
      apply isOpenIn_congr
      intro name hn
      exact h name (Model.mem_lookups.mpr (Or.inr ⟨symbol, hm, hn⟩))
    dsimp only
    rw [hopen]

def ReferenceSet.filter (keep : HookReference → Bool) (set : ReferenceSet) : ReferenceSet where
  references := set.references.filter keep
  seen := (set.references.filter keep).map (·.text)
  seen_eq := rfl
  seen_nodup := set.nodup_texts.sublist (List.filter_sublist.map HookReference.text)

namespace HookReferences

def filter (keep : HookReference → Bool) (refs : HookReferences) : HookReferences :=
  { subscribe := refs.subscribe.filter keep
    transform := refs.transform.filter keep }

theorem toList_filter (keep : HookReference → Bool) (refs : HookReferences) :
    (refs.filter keep).toList = refs.toList.filter keep := by
  rw [toList, toList, List.filter_append]
  rfl

theorem toList_insert (refs : HookReferences) (reference : HookReference) :
    (refs.insert reference).1.toList = refs.toList ∨
      ∃ front back, refs.toList = front ++ back ∧
        (refs.insert reference).1.toList = front ++ reference :: back := by
  have hsubscribe := references_ofKind_insert refs reference .subscribe
  have htransform := references_ofKind_insert refs reference .transform
  simp only [ofKind] at hsubscribe htransform
  rw [toList, hsubscribe, htransform]
  cases hadded : (refs.insert reference).2 with
  | false => exact .inl (by simp [toList])
  | true =>
    cases hk : reference.kind with
    | subscribe => exact .inr ⟨_, _, rfl, by simp⟩
    | transform => exact .inr ⟨refs.toList, [], by simp, by simp [toList]⟩

end HookReferences

structure Generation.SameCode (one other : Generation) : Prop where
  units : one.units = other.units
  resolved : one.stats.resolved = other.stats.resolved
  unitCount : one.stats.units = other.stats.units
  members : one.stats.members = other.stats.members

theorem sameCode_of_hooks {model other : Model} {refs rest : HookReferences}
    (h : (resolveAll model refs).hooks = (resolveAll other rest).hooks)
    (config : GeneratorConfig) :
    (generate model config refs).SameCode (generate other config rest) := by
  constructor <;> simp only [generate, h]

theorem hooks_eq_filterMap (model : Model) (refs : HookReferences) :
    (resolveAll model refs).hooks = (resolvedReferences model refs).filterMap (hook? model) := by
  rw [resolveAll_eq, resolvedReferences, List.filterMap_filter]
  apply List.filterMap_congr
  intro reference _
  cases h : resolve model reference <;>
    simp [hook?, Except.toOption, Except.isOk, Except.toBool, h]

theorem sameCode_of_resolved {model other : Model} {refs rest : HookReferences}
    (hrefs : resolvedReferences model refs = resolvedReferences other rest)
    (hmodel : ∀ reference ∈ resolvedReferences model refs, ∀ name ∈ model.lookups reference,
      other name = model name) (config : GeneratorConfig) :
    (generate model config refs).SameCode (generate other config rest) := by
  apply sameCode_of_hooks
  rw [hooks_eq_filterMap, hooks_eq_filterMap, ← hrefs]
  apply List.filterMap_congr
  intro reference hr
  rw [hook?, hook?, resolve_congr (hmodel reference hr)]

theorem resolvedReferences_filter {model : Model} {refs : HookReferences}
    {keep : HookReference → Bool}
    (h : ∀ reference ∈ refs.toList, keep reference = false →
      (resolve model reference).isOk = false) :
    resolvedReferences model (refs.filter keep) = resolvedReferences model refs := by
  rw [resolvedReferences, HookReferences.toList_filter, List.filter_filter, resolvedReferences]
  apply List.filter_congr
  intro reference hr
  cases hk : keep reference with
  | true => simp
  | false => simp [h reference hr hk]

theorem resolvedReferences_insert {model : Model} {refs : HookReferences}
    {reference : HookReference} (h : (resolve model reference).isOk = false) :
    resolvedReferences model (refs.insert reference).1 = resolvedReferences model refs := by
  rw [resolvedReferences, resolvedReferences]
  rcases refs.toList_insert reference with hsame | ⟨front, back, hold, hnew⟩
  · rw [hsame]
  · simp [hold, hnew, h]

theorem TypeTable.get?_insertAll_of_ne {table : TypeTable} {symbols : List TypeSymbol}
    {name : String} (h : ∀ symbol ∈ symbols, symbol.qualifiedName ≠ name) :
    (table.insertAll symbols).get? name = table.get? name := by
  have hnone : symbols.filter (·.qualifiedName = name) = [] := by
    apply List.filter_eq_nil_iff.mpr
    intro symbol hs
    simpa using h symbol hs
  rw [get?_insertAll, hnone]
  cases table.get? name <;> rfl

/-- References that do not resolve and types that no reference looks up leave no trace in the
generated code. -/
theorem generate_local (model : Model) (config : GeneratorConfig) (refs : HookReferences) :
    (∀ keep : HookReference → Bool,
      (∀ reference ∈ refs.toList, keep reference = false →
        (resolve model reference).isOk = false) →
      (generate model config (refs.filter keep)).SameCode (generate model config refs)) ∧
    (∀ other : Model,
      (∀ reference ∈ refs.toList, ∀ name ∈ model.lookups reference, other name = model name) →
      generate other config refs = generate model config refs) ∧
    (∀ (other : Model) (rest : HookReferences),
      resolvedReferences model refs = resolvedReferences other rest →
      (∀ reference ∈ resolvedReferences model refs, ∀ name ∈ model.lookups reference,
        other name = model name) →
      (generate model config refs).SameCode (generate other config rest)) ∧
    (∀ reference, (resolve model reference).isOk = false →
      (generate model config (refs.insert reference).1).SameCode (generate model config refs)) ∧
    ∀ (table : TypeTable) (symbols : List TypeSymbol),
      (∀ symbol ∈ symbols, ∀ reference ∈ refs.toList,
        symbol.qualifiedName ∉ table.model.lookups reference) →
      generate (table.insertAll symbols).model config refs = generate table.model config refs := by
  have hcongr : ∀ model other : Model,
      (∀ reference ∈ refs.toList, ∀ name ∈ model.lookups reference, other name = model name) →
      generate other config refs = generate model config refs := by
    intro model other hother
    apply generate_congr
    intro reference hr
    rw [SameOutcome, resolve_congr (hother reference hr)]
  refine ⟨?_, hcongr model, ?_, ?_, ?_⟩
  · intro keep hkeep
    exact sameCode_of_resolved (resolvedReferences_filter hkeep) (fun _ _ _ _ => rfl) config
  · intro other rest hrefs hmodel
    exact sameCode_of_resolved hrefs hmodel config
  · intro reference hnot
    exact sameCode_of_resolved (resolvedReferences_insert hnot) (fun _ _ _ _ => rfl) config
  · intro table symbols hnew
    apply hcongr
    intro reference hr name hn
    apply TypeTable.get?_insertAll_of_ne
    rintro symbol hs rfl
    exact hnew symbol hs reference hr hn

theorem generate_local_nested :
    let table := TypeTable.ofList [
      { name := "Outer", namespaceName := some "Game" },
      { name := "Inner", namespaceName := some "Game", containingTypes := ["Outer"],
        members := [.method { name := "Tick", parameters := ["int"] }] }]
    let refs := HookReferences.ofList [
      ⟨.subscribe, "On.Game.Missing.Run", "Game.Missing", "Run"⟩,
      ⟨.subscribe, "On.Game.Outer.Inner.Tick", "Game.Outer.Inner", "Tick"⟩,
      ⟨.transform, "IL.Game.Outer.Inner.Fly", "Game.Outer.Inner", "Fly"⟩]
    let further : List TypeSymbol :=
      [{ name := "Inner", members := [.method { name := "Tick" }] },
       { name := "Pool", namespaceName := some "Game", typeParameters := ["T"] }]
    let keep := fun reference : HookReference => decide (reference.methodName = "Tick")
    (generate table.model {} refs).units.map (·.name) = ["On.Game.Outer.Inner"] ∧
    (generate table.model {} (refs.filter keep)).SameCode (generate table.model {} refs) ∧
    generate (table.insertAll further).model {} refs = generate table.model {} refs := by
  intro table refs further keep
  obtain ⟨hdelete, -, -, -, htypes⟩ := generate_local table.model {} refs
  exact ⟨by decide +kernel, hdelete keep (by decide +kernel),
    htypes table further (by decide +kernel)⟩

end HookEvents
