import HookEvents.Generation.Resolve
import HookEvents.Proofs.CSharp.Scanned
import HookEvents.Proofs.CSharp.Usings

/-!
Declarations under conditional compilation. A reference is found wherever it stands, a type only if
no conditional node is on the way to it, and a method only if it stands directly in the body of such
a type.
-/
namespace HookEvents.CSharp

def hasName (node : Node) : Bool :=
  if node.kind = .typeDeclaration then (node.childFor? .name).isSome
  else (textFor? node .name).isSome

namespace Path

mutual

def wrappersWithin? (type : Node) : Path → Option (List Node)
  | [] => if hasName type then some [] else none
  | body :: rest => if hasName type && body.isBodyOf type then wrappersOfMember? rest else none

def wrappersOfMember? : Path → Option (List Node)
  | [] => none
  | step :: rest =>
    match step.node.kind with
    | .conditional => (wrappersOfMember? rest).map (step.node :: ·)
    | .typeDeclaration => wrappersWithin? step.node rest
    | _ => none

end

mutual

/-- The conditional nodes on the way out of a scope to the declaration of a type. They may stand
around any declaration of a scope or of the body of a type. -/
def wrappers? : Path → Option (List Node)
  | [] => none
  | step :: rest =>
    match step.node.kind with
    | .conditional => (wrappers? rest).map (step.node :: ·)
    | .namespaceDeclaration => if hasName step.node then wrappersInBody? step.node rest else none
    | .fileScopedNamespace => if hasName step.node then wrappers? rest else none
    | .declarationList => wrappers? rest
    | .typeDeclaration => wrappersWithin? step.node rest
    | _ => none

def wrappersInBody? (parent : Node) : Path → Option (List Node)
  | [] => none
  | body :: rest => if body.isBodyOf parent then wrappers? rest else none

end

end Path

section Types

theorem Nested.symbol?_isSome (scope : Scope) (nested : Nested) :
    (nested.symbol? scope).isSome = nested.isNamed := by
  rw [symbol?]
  cases nested.isNamed <;> rfl

variable {type : Node}

theorem Nested.isNamed_outermost (hk : type.kind = .typeDeclaration) :
    (⟨[], type⟩ : Nested).isNamed = hasName type := by
  simp [isNamed, hasName, hk]

theorem Nested.isNamed_within (hk : type.kind = .typeDeclaration) (nested : Nested) :
    (nested.within type).isNamed = (hasName type && nested.isNamed) := by
  simp only [isNamed, within, hasName, hk, if_true, List.all_cons]
  exact Bool.and_left_comm _ _ _

mutual

theorem Path.any_nested?_iff {type : Node} (hk : type.kind = .typeDeclaration) : ∀ path : Path,
    (nested? type path).any Nested.isNamed = true ↔ wrappersWithin? type path = some []
  | [] => by simp [nested?, wrappersWithin?, Nested.isNamed_outermost hk]
  | body :: rest => by
    have hmember := any_member?_iff rest
    rw [nested?, wrappersWithin?]
    by_cases hb : body.isBodyOf type = true
    · rw [if_pos hb, hb, Bool.and_true, Option.any_map]
      simp only [Nested.isNamed_within hk]
      cases hn : hasName type with
      | true => simpa using hmember
      | false => simp
    · simp [hb]

theorem Path.any_member?_iff : ∀ path : Path,
    (member? path).any Nested.isNamed = true ↔ wrappersOfMember? path = some []
  | [] => by simp [member?, wrappersOfMember?]
  | step :: rest => by
    rw [member?, wrappersOfMember?]
    cases hk : step.node.kind
    case typeDeclaration => simpa using any_nested?_iff hk rest
    all_goals simp

end

end Types

section Scopes

theorem Scope.inside?_isSome {node : Node} (start : Scope)
    (hk : node.kind = .namespaceDeclaration ∨ node.kind = .fileScopedNamespace) :
    (start.inside? node).isSome = hasName node := by
  rw [inside?, hasName]
  obtain hk | hk := hk <;> simp [hk, namespaceIn?]

theorem isSome_behind_iff (base : Scope) (step : Step) {found : Option Place} {p : Prop}
    (h : ∀ inner, (found.bind (Place.symbolFrom? inner)).isSome = true ↔ p) :
    ((found.map (Place.behind step)).bind (Place.symbolFrom? base)).isSome = true ↔
      ((base.past step.before).inside? step.node).isSome = true ∧ p := by
  have hbehind : (found.map (Place.behind step)).bind (Place.symbolFrom? base) =
      ((base.past step.before).inside? step.node).bind
        fun inner => found.bind (Place.symbolFrom? inner) := by
    cases found with
    | none => simp
    | some place => exact Place.symbolFrom?_behind base step place
  rw [hbehind]
  cases (base.past step.before).inside? step.node with
  | none => simp
  | some inner => simpa using h inner

mutual

theorem Path.isSome_symbolFrom?_iff (base : Scope) : ∀ path : Path,
    (path.place?.bind (Place.symbolFrom? base)).isSome = true ↔ path.wrappers? = some []
  | [] => by simp [place?, wrappers?]
  | step :: rest => by
    have hscope := isSome_behind_iff base step fun inner => isSome_symbolFrom?_iff inner rest
    rw [place?, wrappers?]
    cases hk : step.node.kind
    case namespaceDeclaration =>
      have hbody := isSome_behind_iff base step
        fun inner => isSome_inBody?_iff inner step.node rest
      simpa [Scope.inside?_isSome (base.past step.before) (.inl hk)] using hbody
    case fileScopedNamespace =>
      simpa [Scope.inside?_isSome (base.past step.before) (.inr hk)] using hscope
    case declarationList => simpa [Scope.inside?, hk] using hscope
    case typeDeclaration =>
      rw [← any_nested?_iff hk rest]
      cases nested? step.node rest with
      | none => simp
      | some nested =>
        simp [Place.symbolFrom?, Scope.reach?, Scope.inside?, hk, Nested.symbol?_isSome]
    all_goals simp

theorem Path.isSome_inBody?_iff (base : Scope) (parent : Node) : ∀ path : Path,
    ((inBody? parent path).bind (Place.symbolFrom? base)).isSome = true ↔
      wrappersInBody? parent path = some []
  | [] => by simp [inBody?, wrappersInBody?]
  | body :: rest => by
    have hplace := isSome_symbolFrom?_iff base rest
    rw [inBody?, wrappersInBody?]
    by_cases hb : body.isBodyOf parent = true
    · rw [if_pos hb, if_pos hb]
      exact hplace
    · simp [hb]

end

end Scopes

theorem exists_collectedIn_iff {tree : Node} {path : Path} (h : path.Within tree) :
    (∃ found ∈ collectedIn tree, found.path = path) ↔ path.wrappers? = some [] := by
  rw [← Path.isSome_symbolFrom?_iff {}, Option.isSome_iff_exists]
  constructor
  · rintro ⟨found, hf, rfl⟩
    obtain ⟨-, hp, hs⟩ := mem_collectedIn.mp hf
    exact ⟨found.symbol, by rw [hp, Option.bind_some, hs]⟩
  · rintro ⟨symbol, hs⟩
    obtain ⟨place, hp, hs⟩ := Option.bind_eq_some_iff.mp hs
    exact ⟨⟨path, place, symbol⟩, mem_collectedIn.mpr ⟨h, hp, hs⟩, rfl⟩

section Methods

theorem Path.within_append {start : Node} {front back : Path} :
    (front ++ back).Within start ↔ front.Within start ∧ back.Within (front.last start) := by
  induction front generalizing start with
  | nil => simp [Within, last]
  | cons step front ih => simp [Within, last, ih, and_assoc]

theorem mem_methods_membersOf {node : Node} {method : Method} :
    method ∈ (membersOf node).filterMap Member.method? ↔
      node.kind = .methodDeclaration ∧ method? node = some method := by
  rw [membersOf]
  cases hk : node.kind
  case methodDeclaration => cases method? node <;> simp [Member.method?, eq_comm]
  all_goals simp [Member.method?]

theorem mem_methods_bodyMembers {body : Option Node} {method : Method} :
    method ∈ (bodyMembers body).filterMap Member.method? ↔
      ∃ node ∈ body, ∃ child ∈ node.children,
        child.kind = .methodDeclaration ∧ method? child = some method := by
  cases body with
  | none => simp [bodyMembers]
  | some node =>
    rw [bodyMembers, Option.map_some, Option.getD_some, ← List.flatMap_def,
      List.filterMap_flatMap, List.mem_flatMap]
    simp only [mem_methods_membersOf, Option.mem_some_iff, exists_eq_left']

theorem body?_eq_some_iff {node body : Node} :
    body? node = some body ↔ ∃ before after,
      node.children = before ++ body :: after ∧ Step.isBodyOf ⟨before, body⟩ node = true := by
  rw [body?, List.find?_eq_some_iff_append]
  simp only [Step.isBodyOf, Bool.and_eq_true, Bool.not_eq_true', List.any_eq_false]
  constructor
  · rintro ⟨hb, before, after, hc, hnone⟩
    exact ⟨before, after, hc, hb, by simpa using hnone⟩
  · rintro ⟨before, after, hc, hb, hnone⟩
    exact ⟨hb, before, after, hc, by simpa using hnone⟩

theorem mem_methods_iff {tree : Node} {found : Collected} (h : found ∈ collectedIn tree)
    {method : Method} :
    method ∈ found.symbol.methods ↔ ∃ body step,
      (found.path ++ [body, step]).Within tree ∧ body.isBodyOf found.place.type = true ∧
        step.node.kind = .methodDeclaration ∧ method? step.node = some method := by
  obtain ⟨hw, hp, hs⟩ := mem_collectedIn.mp h
  have hmembers := (Place.symbolFrom?_eq_some hs).1.members_eq
  have htype := (Path.place?_last tree hp).1
  rw [TypeSymbol.methods, hmembers, Nested.members_eq, mem_methods_bodyMembers]
  constructor
  · rintro ⟨node, hb, child, hc, hk, hm⟩
    obtain ⟨before, after, hchildren, hbody⟩ := body?_eq_some_iff.mp hb
    obtain ⟨front, back, hnode⟩ := List.append_of_mem hc
    refine ⟨⟨before, node⟩, ⟨front, child⟩, ?_, hbody, hk, hm⟩
    rw [Path.within_append, ← htype]
    exact ⟨hw, ⟨after, hchildren⟩, ⟨back, hnode⟩, trivial⟩
  · rintro ⟨⟨before, node⟩, ⟨front, child⟩, hwithin, hbody, hk, hm⟩
    rw [Path.within_append, ← htype] at hwithin
    obtain ⟨-, ⟨after, hchildren⟩, ⟨back, hnode⟩, -⟩ := hwithin
    refine ⟨node, body?_eq_some_iff.mpr ⟨before, after, hchildren, hbody⟩, child, ?_, hk, hm⟩
    rw [hnode]
    exact List.mem_append_right front List.mem_cons_self

end Methods

theorem mem_collectReferences {tree node target : Node} (hn : node ∈ tree.nodes)
    (hh : Hooks node target) {reference : HookReference}
    (hp : HookReference.parse target.text = some reference) :
    reference ∈ (collectReferences tree).toList := by
  have hreference := referenceOf?_eq_some.mpr ⟨target, hh, hp⟩
  have htext : reference.text ∈ ((collectReferences tree).ofKind reference.kind).texts := by
    rw [(built_collectReferences tree).ofKind_eq, ReferenceSet.texts_foldl_add,
      List.mem_eraseDups]
    refine List.mem_append_right _ (List.mem_map_of_mem (List.mem_filter.mpr ⟨?_, by simp⟩))
    exact List.mem_filterMap.mpr ⟨node, hn, hreference⟩
  obtain ⟨other, ho, heq⟩ := List.mem_map.mp htext
  -- The reference kept for a text is the one that the text makes.
  have hother : HookReference.parse reference.text = some other := heq ▸ parse_text_of_mem ho
  rw [text_of_parse hp, HookReference.parse_trim, hp] at hother
  obtain rfl := Option.some.inj hother
  rw [HookReferences.toList, List.mem_append]
  cases hk : reference.kind with
  | subscribe => exact .inl (by simpa [hk, HookReferences.ofKind] using ho)
  | transform => exact .inr (by simpa [hk, HookReferences.ofKind] using ho)

section Resolve

variable {model : Model} {reference : HookReference} {trees : List Node}

theorem resolve_of_known {symbol : TypeSymbol} {method : Method}
    (hs : model reference.typeName = some symbol)
    (hm : symbol.methodNamed reference.methodName = some method) :
    resolve model reference ≠ .error .unknownType ∧
      resolve model reference ≠ .error .unknownMethod := by
  simp only [resolve, hs, hm]
  split
  · simp
  · split <;> simp

theorem resolve_eq_unknownType_iff :
    resolve model reference = .error .unknownType ↔ model reference.typeName = none := by
  cases hs : model reference.typeName with
  | none => simp [resolve, hs]
  | some symbol =>
    cases hm : symbol.methodNamed reference.methodName with
    | none => simp [resolve, hs, hm]
    | some method => simp [(resolve_of_known hs hm).1]

theorem resolve_eq_unknownMethod_iff :
    resolve model reference = .error .unknownMethod ↔ ∃ symbol,
      model reference.typeName = some symbol ∧
        symbol.methodNamed reference.methodName = none := by
  cases hs : model reference.typeName with
  | none => simp [resolve, hs]
  | some symbol =>
    cases hm : symbol.methodNamed reference.methodName with
    | none => simp [resolve, hs, hm]
    | some method => simp [(resolve_of_known hs hm).2, hm]

theorem methodNamed_tableOf_eq_none {name : String} {entry : TypeSymbol}
    (h : (tableOf trees).get? name = some entry) (method : String) :
    entry.methodNamed method = none ↔
      ∀ found ∈ declarationsOf trees name, ∀ known ∈ found.symbol.methods, known.name ≠ method := by
  obtain ⟨first, rest, hfilter, rfl⟩ := get?_tableOf_eq_some h
  have hmethods : (first.absorbAll rest).methods =
      (declarationsOf trees name).flatMap (·.symbol.methods) := by
    rw [TypeSymbol.methods, TypeSymbol.absorbAll_members, ← hfilter, List.flatMap_map,
      List.filterMap_flatMap]
    rfl
  rw [TypeSymbol.methodNamed, TypeSymbol.qualifyTypes_eq, TypeSymbol.methods_mapTypes, hmethods,
    List.find?_eq_none]
  simp only [List.mem_map, List.mem_flatMap, decide_eq_true_eq, forall_exists_index, and_imp]
  constructor
  · intro hnone found hf known hk
    exact hnone (known.mapTypes _) known found hf hk rfl
  · rintro hnone _ known found hf hk rfl
    exact hnone found hf known hk

theorem resolve_tableOf_unknownType :
    resolve (tableOf trees).model reference = .error .unknownType ↔
      declarationsOf trees reference.typeName = [] := by
  rw [resolve_eq_unknownType_iff, TypeTable.model, get?_tableOf_eq_none]

theorem resolve_tableOf_unknownMethod :
    resolve (tableOf trees).model reference = .error .unknownMethod ↔
      declarationsOf trees reference.typeName ≠ [] ∧
      ∀ found ∈ declarationsOf trees reference.typeName,
        ∀ method ∈ found.symbol.methods, method.name ≠ reference.methodName := by
  rw [resolve_eq_unknownMethod_iff, TypeTable.model, ← get?_tableOf_eq_none.ne]
  constructor
  · rintro ⟨entry, he, hm⟩
    exact ⟨by simp [he], (methodNamed_tableOf_eq_none he _).mp hm⟩
  · rintro ⟨hsome, hnone⟩
    obtain ⟨entry, he⟩ := Option.ne_none_iff_exists'.mp hsome
    exact ⟨entry, he, (methodNamed_tableOf_eq_none he _).mpr hnone⟩

end Resolve

/-- References are found everywhere in a tree. A type declared in a scope is collected exactly if no
conditional node is on the way to it, with the methods that stand directly in its body, and only
types and methods so found are known to a reference. -/
theorem conditional_declarations_unknown (trees : List Node) :
    (∀ tree ∈ trees,
      (collectedIn tree).map (·.symbol) = collectTypes tree ∧
      (∀ path : Path, path.Within tree → ∀ wrappers, path.wrappers? = some wrappers →
        ((∃ found ∈ collectedIn tree, found.path = path) ↔ wrappers = [])) ∧
      (∀ found ∈ collectedIn tree, found.path.wrappers? = some [] ∧
        ∀ method, method ∈ found.symbol.methods ↔ ∃ body step,
          (found.path ++ [body, step]).Within tree ∧ body.isBodyOf found.place.type = true ∧
            step.node.kind = .methodDeclaration ∧ method? step.node = some method) ∧
      ∀ node ∈ tree.nodes, ∀ target reference, Hooks node target →
        HookReference.parse target.text = some reference →
          reference ∈ (collectReferences tree).toList) ∧
    ∀ reference : HookReference,
      (resolve (tableOf trees).model reference = .error .unknownType ↔
        declarationsOf trees reference.typeName = []) ∧
      (resolve (tableOf trees).model reference = .error .unknownMethod ↔
        declarationsOf trees reference.typeName ≠ [] ∧
        ∀ found ∈ declarationsOf trees reference.typeName,
          ∀ method ∈ found.symbol.methods, method.name ≠ reference.methodName) := by
  constructor
  · intro tree _
    refine ⟨map_symbol_collectedIn tree, ?_, ?_, ?_⟩
    · intro path hw wrappers hp
      rw [exists_collectedIn_iff hw, hp, Option.some_inj]
    · intro found hf
      have hw := (mem_collectedIn.mp hf).1
      exact ⟨(exists_collectedIn_iff hw).mp ⟨found, hf, rfl⟩, fun method => mem_methods_iff hf⟩
    · intro node hn target reference hh hp
      exact mem_collectReferences hn hh hp
  · intro reference
    exact ⟨resolve_tableOf_unknownType, resolve_tableOf_unknownMethod⟩

def hookedType (wrapMethod : Node → Node) : Node :=
  namedNode .typeDeclaration "A"
    [.mk .declarationList (some .body) ""
      [wrapMethod (namedNode .methodDeclaration "M"
        [.mk .assignment none "On.A.M += F"
          [.mk .memberAccess (some .left) "On.A.M" [],
            .mk .other (some .operator) "+=" []]])]]

def conditional (node : Node) : Node := .mk .conditional none "" [node]

def hookedTree (wrapType wrapMethod : Node → Node) : Node :=
  .mk .compilationUnit none "" [wrapType (hookedType wrapMethod)]

def reasonsIn (tree : Node) : List (String × UnresolvedReason) :=
  (resolveAll (tableOf [tree]).model (collectReferences tree)).unresolved.map
    fun found => (found.reference.text, found.reason)

theorem conditional_hides_declarations :
    reasonsIn (hookedTree id id) = [] ∧
    reasonsIn (hookedTree conditional id) = [("On.A.M", .unknownType)] ∧
    reasonsIn (hookedTree id conditional) = [("On.A.M", .unknownMethod)] := by
  decide +kernel

end HookEvents.CSharp
