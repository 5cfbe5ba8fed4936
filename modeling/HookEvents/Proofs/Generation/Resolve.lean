import HookEvents.Generation.Resolve
import HookEvents.Proofs.Hook.Reference
import HookEvents.Proofs.Symbol.Table

namespace HookEvents

open Text

theorem join_ne_empty {parts : List String} (hp : parts ≠ []) (h : ∀ part ∈ parts, part ≠ "") :
    join "." parts ≠ "" := by
  cases parts with
  | nil => exact absurd rfl hp
  | cons part parts =>
    have hpart := h part (by simp)
    by_cases hn : parts = []
    · simpa [hn] using hpart
    · rw [join_cons "." part hn]
      simp [hpart]

theorem join_concat (front : List String) (part : String) (h : ∀ other ∈ front, other ≠ "") :
    join "." (front ++ [part]) = TypeSymbol.qualifyIn (join "." front) part := by
  by_cases hf : front = []
  · simp [hf, TypeSymbol.qualifyIn, join]
  · rw [join_append "." hf (by simp), TypeSymbol.qualifyIn, if_neg (join_ne_empty hf h),
      join_singleton]

namespace TypeSymbol

theorem mem_containersFrom {front containers : List String}
    (h : ∀ part ∈ front ++ containers, part ≠ "") (name : String) :
    name ∈ containersFrom (join "." front) containers ↔
      ∃ i, 1 ≤ i ∧ i ≤ containers.length ∧ name = join "." (front ++ containers.take i) := by
  induction containers generalizing front with
  | nil =>
    simp only [containersFrom, List.not_mem_nil, List.length_nil, false_iff]
    rintro ⟨i, hi, hi', _⟩
    omega
  | cons container containers ih =>
    have hfront : ∀ part ∈ front, part ≠ "" := fun part hp => h part (by simp [hp])
    have hall : ∀ part ∈ (front ++ [container]) ++ containers, part ≠ "" := by
      simpa using h
    simp only [containersFrom, ← join_concat front container hfront, List.mem_cons, ih hall,
      List.length_cons]
    constructor
    · rintro (rfl | ⟨i, hi, hi', rfl⟩)
      · exact ⟨1, by omega, by omega, by simp⟩
      · exact ⟨i + 1, by omega, by omega, by simp⟩
    · rintro ⟨i, hi, hi', rfl⟩
      by_cases hone : i = 1
      · simp [hone]
      · obtain ⟨j, rfl⟩ : ∃ j, i = j + 1 := ⟨i - 1, by omega⟩
        exact Or.inr ⟨j, by omega, by omega, by simp⟩

theorem parts_ne_empty {symbol : TypeSymbol}
    (h : ∀ segment ∈ split '.' symbol.qualifiedName, segment ≠ "") :
    ∀ part ∈ symbol.namespaceName.toList ++ symbol.nestingChain, part ≠ "" := by
  have hparts : symbol.namespaceName.toList ++ symbol.nestingChain ≠ [] := by
    simp [nestingChain]
  rw [qualifiedName, split_join rfl hparts] at h
  rintro part hp rfl
  exact h "" (List.mem_flatMap.mpr ⟨"", hp, by decide⟩) rfl

theorem mem_containerNames {symbol : TypeSymbol}
    (h : ∀ segment ∈ split '.' symbol.qualifiedName, segment ≠ "") (name : String) :
    name ∈ symbol.containerNames ↔ ∃ i, 1 ≤ i ∧ i ≤ symbol.containingTypes.length ∧
      name = join "." (symbol.namespaceName.toList ++ symbol.containingTypes.take i) := by
  have hparts := parts_ne_empty h
  have hfront : join "." symbol.namespaceName.toList = symbol.namespaceName.getD "" := by
    cases symbol.namespaceName <;> simp [join]
  rw [containerNames, ← hfront]
  apply mem_containersFrom
  intro part hp
  apply hparts part
  rcases List.mem_append.mp hp with hp | hp
  · exact List.mem_append_left _ hp
  · exact List.mem_append_right _ (List.mem_append_left _ hp)

theorem isGeneric_eq_false {symbol : TypeSymbol} :
    symbol.isGeneric = false ↔ symbol.typeParameters = [] := by
  simp [isGeneric]

end TypeSymbol

theorem toOption_eq_some_iff {ε α : Type} {x : Except ε α} {a : α} :
    x.toOption = some a ↔ x = .ok a := by
  cases x <;> simp [Except.toOption]

def hook? (model : Model) (reference : HookReference) : Option ResolvedHook :=
  (resolve model reference).toOption

def unresolved? (model : Model) (reference : HookReference) : Option Unresolved :=
  match resolve model reference with
  | .ok _ => none
  | .error reason => some { reference, reason }

theorem Resolution.foldl_add (model : Model) (resolution : Resolution)
    (references : List HookReference) :
    references.foldl (add model) resolution =
      { hooks := resolution.hooks ++ references.filterMap (hook? model)
        unresolved := resolution.unresolved ++ references.filterMap (unresolved? model) } := by
  induction references generalizing resolution with
  | nil => simp
  | cons reference references ih =>
    rw [List.foldl_cons, ih, add]
    cases h : resolve model reference <;> simp [hook?, unresolved?, Except.toOption, h]

theorem resolveAll_eq (model : Model) (refs : HookReferences) :
    resolveAll model refs =
      { hooks := refs.toList.filterMap (hook? model)
        unresolved := refs.toList.filterMap (unresolved? model) } := by
  rw [resolveAll, Resolution.foldl_add, List.nil_append, List.nil_append]

theorem resolve_eq_ok_iff {model : Model} {reference : HookReference} {hook : ResolvedHook} :
    resolve model reference = .ok hook ↔ hook.kind = reference.kind ∧
      model reference.typeName = some hook.declaringType ∧
      hook.declaringType.methodNamed reference.methodName = some hook.method ∧
      hook.declaringType.isOpenIn model = false ∧ hook.method.isGeneric = false := by
  constructor
  · intro h
    rw [resolve] at h
    split at h
    · exact absurd h (by simp)
    next declaringType hm =>
      split at h
      · exact absurd h (by simp)
      next method hn =>
        split at h
        · exact absurd h (by simp)
        next ho =>
          split at h
          · exact absurd h (by simp)
          next hg =>
            obtain rfl := Except.ok.inj h
            exact ⟨rfl, hm, hn, Bool.eq_false_iff.mpr ho, Bool.eq_false_iff.mpr hg⟩
  · rintro ⟨hk, hm, hn, ho, hg⟩
    simp [resolve, hm, hn, ho, hg, ← hk]

theorem any_isGeneric_eq_false {table : TypeTable} {symbols : List TypeSymbol}
    (h : table.Built symbols) (name : String) :
    (table.get? name).any TypeSymbol.isGeneric = false ↔
      ∀ symbol ∈ symbols, symbol.qualifiedName = name → symbol.typeParameters = [] := by
  rw [h.get?_eq_gather]
  have hmem (symbol : TypeSymbol) : symbol ∈ symbols.filter (·.qualifiedName = name) ↔
      symbol ∈ symbols ∧ symbol.qualifiedName = name := by simp
  simp only [← TypeSymbol.isGeneric_eq_false, ← and_imp, ← hmem]
  cases symbols.filter (·.qualifiedName = name) with
  | nil => simp [Keyed.gather]
  | cons first rest =>
    change (first.absorbAll rest).isGeneric = false ↔ _
    rw [TypeSymbol.absorbAll_isGeneric, List.any_eq_false]
    simp

/-- No declaration of the type that the name stands for, or of one around it, has type
parameters. -/
def ClosedTarget (symbols : List TypeSymbol) (first : TypeSymbol) : Prop :=
  (∀ symbol ∈ symbols, symbol.qualifiedName = first.qualifiedName → symbol.typeParameters = []) ∧
    ∀ i, 1 ≤ i → i ≤ first.containingTypes.length → ∀ symbol ∈ symbols,
      symbol.qualifiedName =
        join "." (first.namespaceName.toList ++ first.containingTypes.take i) →
      symbol.typeParameters = []

theorem closedTarget_iff {symbols : List TypeSymbol} {first : TypeSymbol} {rest : List TypeSymbol}
    {name : String} (hd : symbols.filter (·.qualifiedName = name) = first :: rest) :
    ClosedTarget symbols first ↔
      (∀ symbol ∈ first :: rest, symbol.typeParameters = []) ∧
        ∀ i, 1 ≤ i → i ≤ first.containingTypes.length → ∀ symbol ∈ symbols,
          symbol.qualifiedName =
            join "." (first.namespaceName.toList ++ first.containingTypes.take i) →
          symbol.typeParameters = [] := by
  rw [ClosedTarget, TypeTable.qualifiedName_of_filter hd, ← hd]
  simp only [List.mem_filter, decide_eq_true_eq, and_imp]

theorem isOpenIn_absorbAll {table : TypeTable} {symbols : List TypeSymbol}
    (hb : table.Built symbols) {first : TypeSymbol} {rest : List TypeSymbol}
    (hd : symbols.filter (·.qualifiedName = first.qualifiedName) = first :: rest)
    (hn : ∀ segment ∈ split '.' first.qualifiedName, segment ≠ "") :
    (first.absorbAll rest).isOpenIn table.model = false ↔ ClosedTarget symbols first := by
  have hentry : table.get? first.qualifiedName = some (first.absorbAll rest) :=
    hb.get?_eq_some_iff.mpr ⟨first, rest, hd, rfl⟩
  have hself := any_isGeneric_eq_false hb first.qualifiedName
  rw [hentry, Option.any_some] at hself
  have hname : (first.absorbAll rest).qualifiedName = first.qualifiedName :=
    TypeTable.qualifiedName_of_get? hentry
  have hmem := @TypeSymbol.mem_containerNames (first.absorbAll rest) (hname ▸ hn)
  rw [TypeSymbol.isOpenIn, Bool.or_eq_false_iff, hself, List.any_eq_false, ClosedTarget]
  apply and_congr_right'
  simp only [Bool.not_eq_true, TypeTable.model, any_isGeneric_eq_false hb, hmem,
    TypeSymbol.absorbAll_containingTypes, TypeSymbol.absorbAll_namespaceName]
  constructor
  · intro h i hi hi' symbol hs he
    exact h _ ⟨i, hi, hi', rfl⟩ symbol hs he
  · rintro h _ ⟨i, hi, hi', rfl⟩ symbol hs he
    exact h i hi hi' symbol hs he

theorem resolve_built_iff {table : TypeTable} {symbols : List TypeSymbol}
    (hb : table.Built symbols) {text : String} {reference : HookReference}
    (hr : HookReference.parse text = some reference) {hook : ResolvedHook} :
    resolve table.model reference = .ok hook ↔ hook.kind = reference.kind ∧ ∃ first rest,
      symbols.filter (·.qualifiedName = reference.typeName) = first :: rest ∧
      hook.declaringType = first.absorbAll rest ∧
      (((first :: rest).flatMap (·.members)).filterMap Member.method?).find?
        (·.name = reference.methodName) = some hook.method ∧
      hook.method.typeParameters = [] ∧ ClosedTarget symbols first := by
  have hclosed (method : Method) : method.isGeneric = false ↔ method.typeParameters = [] := by
    simp [Method.isGeneric]
  rw [resolve_eq_ok_iff, hclosed]
  apply and_congr_right'
  change table.get? reference.typeName = some hook.declaringType ∧ _ ↔ _
  rw [hb.get?_eq_some_iff]
  constructor
  · rintro ⟨⟨first, rest, hd, he⟩, hm, ho, hg⟩
    have hfirst : first.qualifiedName = reference.typeName := TypeTable.qualifiedName_of_filter hd
    rw [← he, TypeSymbol.methodNamed, TypeSymbol.methods, TypeSymbol.absorbAll_members] at hm
    rw [← he, isOpenIn_absorbAll hb (hfirst ▸ hd) (hfirst ▸ HookReference.split_typeName hr)] at ho
    exact ⟨first, rest, hd, he.symm, hm, hg, ho⟩
  · rintro ⟨first, rest, hd, he, hm, hg, ho⟩
    have hfirst : first.qualifiedName = reference.typeName := TypeTable.qualifiedName_of_filter hd
    rw [he, TypeSymbol.methodNamed, TypeSymbol.methods, TypeSymbol.absorbAll_members,
      isOpenIn_absorbAll hb (hfirst ▸ hd) (hfirst ▸ HookReference.split_typeName hr)]
    exact ⟨⟨first, rest, hd, rfl⟩, hm, ho, hg⟩

theorem resolve_ofList_exact (symbols : List TypeSymbol) {text : String}
    {reference : HookReference} (hr : HookReference.parse text = some reference) :
    let outcome := resolve (TypeTable.ofList symbols).model reference
    let declared := symbols.filter fun symbol => symbol.qualifiedName = reference.typeName
    let found := ((declared.flatMap (·.members)).filterMap Member.method?).find?
      fun method => method.name = reference.methodName
    ((∃ hook, outcome = .ok hook) ↔
      (∃ symbol ∈ symbols, symbol.qualifiedName = reference.typeName) ∧
      (∃ method, found = some method ∧ method.typeParameters = []) ∧
      (∀ symbol ∈ declared, symbol.typeParameters = []) ∧
      ∀ first, declared.head? = some first → ∀ i, 1 ≤ i → i ≤ first.containingTypes.length →
        ∀ symbol ∈ symbols, symbol.qualifiedName =
          join "." (first.namespaceName.toList ++ first.containingTypes.take i) →
        symbol.typeParameters = []) ∧
    ∀ hook, outcome = .ok hook → hook.kind = reference.kind ∧ found = some hook.method ∧
      ∃ first, declared.head? = some first ∧
        hook.declaringType.namespaceName = first.namespaceName ∧
        hook.declaringType.containingTypes = first.containingTypes := by
  intro outcome declared found
  have hok (hook : ResolvedHook) :=
    @resolve_built_iff _ _ (TypeTable.built_ofList symbols) _ _ hr hook
  refine ⟨⟨?_, ?_⟩, ?_⟩
  · rintro ⟨hook, ho⟩
    obtain ⟨_, first, rest, hd, _, hm, hg, hc⟩ := (hok hook).mp ho
    obtain ⟨hself, haround⟩ := (closedTarget_iff hd).mp hc
    have hdeclared : declared = first :: rest := hd
    have hin : first ∈ declared := by simp [hdeclared]
    refine ⟨⟨first, (List.mem_filter.mp hin).1, TypeTable.qualifiedName_of_filter hd⟩,
      ⟨hook.method, by rw [← hm, ← hd], hg⟩, hdeclared ▸ hself, ?_⟩
    intro other ho
    obtain rfl : first = other := by simpa [hdeclared] using ho
    exact haround
  · rintro ⟨⟨symbol, hs, he⟩, ⟨method, hm, hg⟩, hself, haround⟩
    have hin : symbol ∈ declared := List.mem_filter.mpr ⟨hs, decide_eq_true he⟩
    cases hd : declared with
    | nil => simp [hd] at hin
    | cons first rest =>
      have hc := (closedTarget_iff hd).mpr ⟨hd ▸ hself, haround first (by simp [hd])⟩
      exact ⟨⟨reference.kind, first.absorbAll rest, method⟩,
        (hok _).mpr ⟨rfl, first, rest, hd, rfl, by rw [← hd]; exact hm, hg, hc⟩⟩
  · intro hook ho
    obtain ⟨hk, first, rest, hd, he, hm, _⟩ := (hok hook).mp ho
    have hdeclared : declared = first :: rest := hd
    refine ⟨hk, by rw [← hm, ← hd], first, by simp [hdeclared], ?_, ?_⟩
    · rw [he, TypeSymbol.absorbAll_namespaceName]
    · rw [he, TypeSymbol.absorbAll_containingTypes]

theorem resolve_ofList_exact_partial :
    ∃ hook, resolve (TypeTable.ofList
      [{ name := "Inner", namespaceName := some "Game", containingTypes := ["Outer"] },
        { name := "Pool", namespaceName := some "Game", typeParameters := ["T"] },
        { name := "Inner", namespaceName := some "Game.Outer",
          members := [.field "Run", .method { name := "Run", parameters := ["int"] },
            .method { name := "Run", typeParameters := ["T"] }] }]).model
      { kind := .transform, text := "IL.Game. Outer.Inner.Run", typeName := "Game.Outer.Inner",
        methodName := "Run" } = .ok hook := by
  have hr : HookReference.parse " IL.Game. Outer.Inner.Run" =
      some { kind := .transform, text := "IL.Game. Outer.Inner.Run",
             typeName := "Game.Outer.Inner", methodName := "Run" } := by decide
  refine (resolve_ofList_exact _ hr).1.mpr ⟨by decide, ⟨{ name := "Run", parameters := ["int"] },
    by decide, rfl⟩, by decide, ?_⟩
  intro first hf i hi hi'
  obtain rfl := Option.some.inj hf
  obtain rfl : i = 1 := Nat.le_antisymm hi' hi
  decide

end HookEvents
