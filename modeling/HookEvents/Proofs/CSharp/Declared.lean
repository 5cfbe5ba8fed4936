import HookEvents.Proofs.CSharp.Structure

namespace HookEvents.CSharp

namespace Scope

def past (scope : Scope) (nodes : List Node) : Scope := nodes.foldl Scope.after scope

def inside? (scope : Scope) (node : Node) : Option Scope :=
  match node.kind with
  | .namespaceDeclaration => (namespaceIn? scope.current node).map scope.inNamespace
  | .fileScopedNamespace => (namespaceIn? scope.outer node).map scope.inNamespace
  | .declarationList => some scope.entered
  | .typeDeclaration => some scope
  | _ => none

def reach? (scope : Scope) : List Step → Option Scope
  | [] => some scope
  | step :: steps => ((scope.past step.before).inside? step.node).bind (reach? · steps)

theorem past_concat (scope : Scope) (nodes : List Node) (node : Node) :
    scope.past (nodes ++ [node]) = (scope.past nodes).after node := by
  simp [past]

theorem inside?_eq_some {scope inner : Scope} {node : Node} (h : scope.inside? node = some inner) :
    (∃ name, inner = scope.inNamespace name) ∨ inner = scope.entered ∨ inner = scope := by
  rw [inside?] at h
  split at h
  · obtain ⟨name, -, rfl⟩ := Option.map_eq_some_iff.mp h
    exact .inl ⟨name, rfl⟩
  · obtain ⟨name, -, rfl⟩ := Option.map_eq_some_iff.mp h
    exact .inl ⟨name, rfl⟩
  · exact .inr (.inl (Option.some.inj h).symm)
  · exact .inr (.inr (Option.some.inj h).symm)
  · exact absurd h (by simp)

end Scope

def Nested.isNamed (nested : Nested) : Bool :=
  (nested.type :: nested.containers).all fun node => (node.childFor? .name).isSome

def Nested.symbol? (scope : Scope) (nested : Nested) : Option TypeSymbol :=
  if nested.isNamed then some (nested.symbolIn scope) else none

/-- The symbol of a declaration at the end of a way out of a scope, if all on the way have names. -/
def Place.symbolFrom? (base : Scope) (place : Place) : Option TypeSymbol :=
  (base.reach? place.scopes).bind place.toNested.symbol?

theorem Place.symbolFrom?_behind (base : Scope) (step : Step) (place : Place) :
    (place.behind step).symbolFrom? base =
      ((base.past step.before).inside? step.node).bind place.symbolFrom? := by
  rw [symbolFrom?, behind, Scope.reach?, Option.bind_assoc]
  rfl

section Types

variable {node : Node}

theorem declaredName_of_childFor? {nameNode : Node} (h : node.childFor? .name = some nameNode) :
    declaredName node = plainText nameNode := by
  rw [declaredName, textFor?, h, Option.map_some]
  by_cases hempty : plainText nameNode = ""
  · simp [hempty, Option.filter]
  · simp [hempty, Option.filter]

theorem typesOf_unnamed (scope : Scope) (hk : node.kind = .typeDeclaration)
    (hn : node.childFor? .name = none) : typesOf scope node = [] := by
  obtain ⟨kind, role, text, children⟩ := node
  obtain rfl : kind = .typeDeclaration := hk
  rw [typesOf]
  simp only [hn]

theorem typesOf_named (scope : Scope) (hk : node.kind = .typeDeclaration) {nameNode : Node}
    (hn : node.childFor? .name = some nameNode) :
    typesOf scope node = symbolOf scope (declaredName node) node ::
      (body? node).toList.flatMap fun body =>
        nestedIn (scope.inType (declaredName node)) body.children := by
  rw [declaredName_of_childFor? hn]
  obtain ⟨kind, role, text, children⟩ := node
  obtain rfl : kind = .typeDeclaration := hk
  rw [typesOf]
  simp only [hn, nestedInBody_eq_flatMap]
  rfl

theorem Nested.symbol?_within (scope : Scope) {nameNode : Node}
    (hn : node.childFor? .name = some nameNode) (nested : Nested) :
    (nested.within node).symbol? scope = nested.symbol? (scope.inType (declaredName node)) := by
  have hnamed : (nested.within node).isNamed = nested.isNamed := by
    simp [isNamed, within, hn]
  rw [symbol?, symbol?, hnamed, symbolIn_within]

theorem Nested.symbol?_within_unnamed (scope : Scope) (hn : node.childFor? .name = none)
    (nested : Nested) : (nested.within node).symbol? scope = none := by
  have hnamed : (nested.within node).isNamed = false := by
    simp [isNamed, within, hn]
  rw [symbol?, hnamed]
  rfl

mutual

theorem typesOf_eq_nested (scope : Scope) (node : Node) (hk : node.kind = .typeDeclaration) :
    typesOf scope node =
      (node.paths.filterMap (Path.nested? node)).filterMap (Nested.symbol? scope) := by
  rw [filterMap_nested?]
  cases hn : node.childFor? .name with
  | none =>
    have hself : (⟨[], node⟩ : Nested).symbol? scope = none := by
      simp [Nested.symbol?, Nested.isNamed, hn]
    rw [typesOf_unnamed scope hk hn, List.filterMap_cons_none hself, List.filterMap_map]
    symm
    apply List.filterMap_eq_nil_iff.mpr
    intro nested _
    exact Nested.symbol?_within_unnamed scope hn nested
  | some nameNode =>
    have hself : (⟨[], node⟩ : Nested).symbol? scope =
        some (symbolOf scope (declaredName node) node) := by
      rw [Nested.symbol?, Nested.symbolIn_outermost]
      simp [Nested.isNamed, hn]
    have hwithin : Nested.symbol? scope ∘ Nested.within node =
        Nested.symbol? (scope.inType (declaredName node)) :=
      funext fun nested => Nested.symbol?_within scope hn nested
    rw [typesOf_named scope hk hn, List.filterMap_cons_some hself, List.filterMap_map, hwithin]
    congr 1
    cases hb : body? node with
    | none => rfl
    | some body =>
      have hsize := sizeOf_body_lt hb
      simp only [Option.toList_some, List.flatMap_singleton]
      exact nestedIn_eq_members (scope.inType (declaredName node)) [] body.children
termination_by sizeOf node

theorem nestedIn_eq_members (scope : Scope) (before nodes : List Node) :
    nestedIn scope nodes = ((Node.pathsIn before nodes).filterMap Path.member?).filterMap
      (Nested.symbol? scope) := by
  cases nodes with
  | nil => simp [nestedIn, Node.pathsIn]
  | cons node nodes =>
    rw [nestedIn, filterMap_pathsIn_cons, List.filterMap_append,
      nestedIn_eq_members scope (before ++ [node]) nodes]
    congr 1
    simp only [Path.member?]
    split
    next hk => exact typesOf_eq_nested scope node hk
    next hk => simp
termination_by sizeOf nodes

end

end Types

section Scopes

variable (base : Scope) {node : Node}

theorem typesOf_namespace (scope : Scope) (hk : node.kind = .namespaceDeclaration) :
    typesOf scope node = (scope.inside? node).toList.flatMap fun inner =>
      (body? node).toList.flatMap fun body => typesIn inner body.children := by
  obtain ⟨kind, role, text, children⟩ := node
  obtain rfl : kind = .namespaceDeclaration := hk
  rw [typesOf, Scope.inside?]
  simp only [Node.kind]
  cases namespaceIn? scope.current (.mk .namespaceDeclaration role text children) with
  | none => rfl
  | some name =>
    simp only [Option.map_some, Option.toList_some, List.flatMap_singleton,
      typesInBody_eq_flatMap]
    rfl

theorem typesOf_list (scope : Scope)
    (hk : node.kind = .fileScopedNamespace ∨ node.kind = .declarationList) :
    typesOf scope node =
      (scope.inside? node).toList.flatMap fun inner => typesIn inner node.children := by
  obtain ⟨kind, role, text, children⟩ := node
  obtain rfl | rfl : kind = .fileScopedNamespace ∨ kind = .declarationList := hk
  · rw [typesOf, Scope.inside?]
    simp only [Node.kind]
    cases namespaceIn? scope.outer (.mk .fileScopedNamespace role text children) <;>
      simp [Node.children]
  · rw [typesOf, Scope.inside?]
    simp [Node.kind, Node.children]

theorem filterMap_behind (step : Step) (places : List Place) :
    (places.map (Place.behind step)).filterMap (Place.symbolFrom? base) =
      ((base.past step.before).inside? step.node).toList.flatMap fun inner =>
        places.filterMap (Place.symbolFrom? inner) := by
  rw [List.filterMap_map]
  have hbehind : Place.symbolFrom? base ∘ Place.behind step = fun place =>
      ((base.past step.before).inside? step.node).bind place.symbolFrom? :=
    funext fun place => Place.symbolFrom?_behind base step place
  rw [hbehind]
  cases (base.past step.before).inside? step.node with
  | none => simp
  | some inner =>
    simp only [Option.toList_some, List.flatMap_singleton]
    rfl

mutual

theorem typesOf_eq_filterMap (base : Scope) (before : List Node) (node : Node) :
    typesOf (base.past before) node =
      (node.paths.filterMap fun rest => Path.place? (⟨before, node⟩ :: rest)).filterMap
        (Place.symbolFrom? base) := by
  -- One case for each way on from a scope; the lists entered are smaller than the node.
  have hchildren := sizeOf_children_lt node
  simp only [Path.place?]
  cases hk : node.kind
  case namespaceDeclaration =>
    rw [typesOf_namespace _ hk, ← List.map_filterMap, filterMap_behind, filterMap_inBody?]
    dsimp only
    congr 1
    funext inner
    cases hb : body? node with
    | none => rfl
    | some body =>
      have hsize := sizeOf_body_lt hb
      simp only [Option.toList_some, List.flatMap_singleton]
      exact typesIn_eq_filterMap inner [] body.children
  case fileScopedNamespace | declarationList =>
    rw [typesOf_list _ (by simp [hk]), ← List.map_filterMap, filterMap_behind,
      filterMap_paths_of_none (by rw [Path.place?])]
    dsimp only
    congr 1
    funext inner
    exact typesIn_eq_filterMap inner [] node.children
  case typeDeclaration =>
    rw [typesOf_eq_nested _ node hk, ← List.map_filterMap, List.filterMap_map]
    apply List.filterMap_congr
    intro nested _
    simp [Place.symbolFrom?, Scope.reach?, Scope.inside?, hk]
  all_goals
    obtain ⟨kind, role, text, children⟩ := node
    obtain rfl := hk
    simp [typesOf]
termination_by sizeOf node

theorem typesIn_eq_filterMap (base : Scope) (before nodes : List Node) :
    typesIn (base.past before) nodes =
      ((Node.pathsIn before nodes).filterMap Path.place?).filterMap (Place.symbolFrom? base) := by
  cases nodes with
  | nil => simp [typesIn, Node.pathsIn]
  | cons node nodes =>
    rw [typesIn, filterMap_pathsIn_cons, List.filterMap_append,
      typesOf_eq_filterMap base before node, ← Scope.past_concat,
      typesIn_eq_filterMap base (before ++ [node]) nodes]
termination_by sizeOf nodes

end

end Scopes

structure Collected where
  path : Path
  place : Place
  symbol : TypeSymbol

def Path.collected? (path : Path) : Option Collected :=
  path.place?.bind fun place => (place.symbolFrom? {}).map fun symbol => ⟨path, place, symbol⟩

def collectedIn (tree : Node) : List Collected := tree.paths.filterMap Path.collected?

theorem Path.collected?_eq_some {path : Path} {found : Collected} :
    path.collected? = some found ↔ found.path = path ∧ path.place? = some found.place ∧
      found.place.symbolFrom? {} = some found.symbol := by
  rw [collected?, Option.bind_eq_some_iff]
  constructor
  · rintro ⟨place, hp, h⟩
    obtain ⟨symbol, hs, rfl⟩ := Option.map_eq_some_iff.mp h
    exact ⟨rfl, hp, hs⟩
  · rintro ⟨rfl, hp, hs⟩
    exact ⟨found.place, hp, by rw [hs, Option.map_some]⟩

theorem mem_collectedIn {tree : Node} {found : Collected} :
    found ∈ collectedIn tree ↔ found.path.Within tree ∧
      found.path.place? = some found.place ∧
      found.place.symbolFrom? {} = some found.symbol := by
  rw [collectedIn, List.mem_filterMap]
  constructor
  · rintro ⟨path, hp, h⟩
    obtain ⟨rfl, hplace, hs⟩ := Path.collected?_eq_some.mp h
    exact ⟨Node.mem_paths.mp hp, hplace, hs⟩
  · rintro ⟨hw, hp, hs⟩
    exact ⟨found.path, Node.mem_paths.mpr hw, Path.collected?_eq_some.mpr ⟨rfl, hp, hs⟩⟩

theorem map_symbol_collectedIn (tree : Node) :
    (collectedIn tree).map (·.symbol) = collectTypes tree := by
  have htypes := typesIn_eq_filterMap {} [] tree.children
  rw [← filterMap_paths_of_none (by rw [Path.place?]), List.filterMap_filterMap] at htypes
  rw [collectedIn, List.map_filterMap, collectTypes]
  refine Eq.trans ?_ htypes.symm
  apply List.filterMap_congr
  intro path _
  rw [Path.collected?]
  cases path.place? with
  | none => rfl
  | some place =>
    simp only [Option.bind_some]
    cases place.symbolFrom? {} <;> rfl

theorem pairwise_collectedIn (tree : Node) :
    ((collectedIn tree).map (·.path.position)).Pairwise (· < ·) := by
  rw [List.pairwise_map, collectedIn, List.pairwise_filterMap]
  refine (List.pairwise_map.mp (Node.pairwise_paths tree)).imp ?_
  intro path other hlt found hd found' hd'
  obtain ⟨rfl, -⟩ := Path.collected?_eq_some.mp hd
  obtain ⟨rfl, -⟩ := Path.collected?_eq_some.mp hd'
  exact hlt

def declarationsOf (trees : List Node) (name : String) : List Collected :=
  (trees.flatMap collectedIn).filter (·.symbol.qualifiedName = name)

theorem mem_declarationsOf {trees : List Node} {name : String} {found : Collected} :
    found ∈ declarationsOf trees name ↔
      (∃ tree ∈ trees, found ∈ collectedIn tree) ∧ found.symbol.qualifiedName = name := by
  simp [declarationsOf]

theorem filter_collectTypes (trees : List Node) (name : String) :
    (trees.map collectTypes).flatten.filter (·.qualifiedName = name) =
      (declarationsOf trees name).map (·.symbol) := by
  have hall : (trees.map collectTypes).flatten = (trees.flatMap collectedIn).map (·.symbol) := by
    rw [List.map_flatMap, ← List.flatMap_def]
    simp only [map_symbol_collectedIn]
  rw [hall, List.filter_map, declarationsOf]
  rfl

theorem get?_tableOf_eq_some {trees : List Node} {name : String} {entry : TypeSymbol}
    (h : (tableOf trees).get? name = some entry) :
    ∃ first rest, (declarationsOf trees name).map (·.symbol) = first :: rest ∧
      entry = (first.absorbAll rest).qualifyTypes
        (TypeTable.ofList (trees.map collectTypes).flatten) := by
  rw [tableOf_eq, TypeTable.get?_qualifyTypes] at h
  obtain ⟨plain, hp, rfl⟩ := Option.map_eq_some_iff.mp h
  obtain ⟨first, rest, hfilter, rfl⟩ := (TypeTable.built_ofList _).get?_eq_some_iff.mp hp
  rw [filter_collectTypes] at hfilter
  exact ⟨first, rest, hfilter, rfl⟩

theorem get?_tableOf_eq_none {trees : List Node} {name : String} :
    (tableOf trees).get? name = none ↔ declarationsOf trees name = [] := by
  rw [tableOf_eq, TypeTable.get?_qualifyTypes, Option.map_eq_none_iff,
    (TypeTable.built_ofList _).get?_eq_gather, filter_collectTypes]
  cases declarationsOf trees name <;> simp [Keyed.gather]

end HookEvents.CSharp
