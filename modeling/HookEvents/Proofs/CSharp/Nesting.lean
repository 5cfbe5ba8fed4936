import HookEvents.CSharp.Types
import HookEvents.Proofs.Symbol.Enclosing
import HookEvents.Proofs.Symbol.Merge

namespace HookEvents.CSharp

open Text

namespace Node

mutual

def nodes : Node → List Node
  | .mk kind role text children => .mk kind role text children :: nodesIn children

def nodesIn : List Node → List Node
  | [] => []
  | node :: rest => node.nodes ++ nodesIn rest

end

end Node

def TypesNamed (nodes : List Node) : Prop :=
  ∀ node ∈ nodes, node.kind = .typeDeclaration → (node.childFor? .name).map plainText ≠ some ""

instance : DecidablePred TypesNamed :=
  fun nodes => inferInstanceAs (Decidable (∀ node ∈ nodes, node.kind = .typeDeclaration →
    (node.childFor? .name).map plainText ≠ some ""))

structure DeclaredIn (scope : Scope) (members : List Member) (symbol : TypeSymbol) : Prop where
  namespaceName_eq : symbol.namespaceName = scope.current.filter (· ≠ "")
  containingTypes_eq : symbol.containingTypes = scope.containing
  mem_members : .nestedType symbol.name ∈ members

def bodyMembers (body : Option Node) : List Member :=
  (body.map fun body => (body.children.map membersOf).flatten).getD []

theorem DeclaredIn.mono {scope : Scope} {members more : List Member} {symbol : TypeSymbol}
    (h : DeclaredIn scope members symbol) (hm : members ⊆ more) : DeclaredIn scope more symbol :=
  { h with mem_members := hm h.mem_members }

theorem symbolOf_namespaceName (scope : Scope) (name : String) (node : Node) :
    (symbolOf scope name node).namespaceName = scope.current.filter (· ≠ "") := by
  change (TypeSymbol.inNamespace { name } (scope.current.getD "")).namespaceName = _
  rw [TypeSymbol.inNamespace]
  cases scope.current with
  | none => rfl
  | some outer => by_cases ho : outer = "" <;> simp [ho, Option.filter]

theorem symbolOf_named {scope : Scope} {name : String} {node : Node} (h : name ≠ "") :
    (symbolOf scope name node).Named := by
  refine ⟨h, ?_⟩
  rw [symbolOf_namespaceName]
  intro he
  simp [Option.filter_eq_some_iff] at he

theorem symbolOf_encloses {scope : Scope} {name : String} {node : Node} {symbol : TypeSymbol}
    (h : DeclaredIn (scope.inType name) (bodyMembers (body? node)) symbol) :
    (symbolOf scope name node).Encloses symbol where
  namespaceName_eq := by rw [h.namespaceName_eq, symbolOf_namespaceName]; rfl
  containingTypes_eq := h.containingTypes_eq
  mem_members := h.mem_members

theorem symbolOf_declaredIn {scope : Scope} {node nameNode : Node}
    (hk : node.kind = .typeDeclaration) (hc : node.childFor? .name = some nameNode)
    (hn : plainText nameNode ≠ "") :
    DeclaredIn scope (membersOf node) (symbolOf scope (plainText nameNode) node) where
  namespaceName_eq := symbolOf_namespaceName _ _ _
  containingTypes_eq := rfl
  mem_members := by
    have htext : textFor? node .name = some (plainText nameNode) := by
      rw [textFor?, hc]
      simp [Option.filter, hn]
    rw [membersOf, hk, htext]
    exact List.mem_singleton.mpr rfl

namespace TypesNamed

theorem own_name {node nameNode : Node} (h : TypesNamed node.nodes)
    (hk : node.kind = .typeDeclaration) (hc : node.childFor? .name = some nameNode) :
    plainText nameNode ≠ "" := by
  have hself : node ∈ node.nodes := by
    cases node
    simp [Node.nodes]
  intro he
  exact h node hself hk (by simp [hc, he])

theorem inside {kind : NodeKind} {role : Option Role} {text : String} {children : List Node}
    (h : TypesNamed (Node.mk kind role text children).nodes) :
    TypesNamed (Node.nodesIn children) :=
  fun node hm => h node (by simp [Node.nodes, hm])

theorem head {node : Node} {nodes : List Node} (h : TypesNamed (Node.nodesIn (node :: nodes))) :
    TypesNamed node.nodes :=
  fun other hm => h other (by simp [Node.nodesIn, hm])

theorem tail {node : Node} {nodes : List Node} (h : TypesNamed (Node.nodesIn (node :: nodes))) :
    TypesNamed (Node.nodesIn nodes) :=
  fun other hm => h other (by simp [Node.nodesIn, hm])

end TypesNamed

open TypeSymbol (Rooted)

mutual

theorem rooted_typesOf (scope : Scope) : ∀ node : Node, node.kind = .typeDeclaration →
    TypesNamed node.nodes → Rooted (DeclaredIn scope (membersOf node)) (typesOf scope node)
  | .mk kind role text children, hk, hn => by
    obtain rfl : kind = .typeDeclaration := hk
    rw [typesOf]
    dsimp only
    split
    next nameNode hc =>
      have hname := hn.own_name rfl hc
      have hnested := rooted_nestedInBody (isBodyAmong children)
        (scope.inType (plainText nameNode)) children hn.inside
      refine .cons (symbolOf_named hname) (symbolOf_declaredIn rfl hc hname) ?_
      exact hnested.imp fun _ hd => symbolOf_encloses hd
    next => exact .nil

theorem rooted_nestedIn (scope : Scope) : ∀ nodes : List Node, TypesNamed (Node.nodesIn nodes) →
    Rooted (DeclaredIn scope (nodes.map membersOf).flatten) (nestedIn scope nodes)
  | [], _ => .nil
  | node :: nodes, hn => by
    have hrest := (rooted_nestedIn scope nodes hn.tail).imp fun _ hd =>
      hd.mono (List.subset_append_right (membersOf node) _)
    rw [nestedIn]
    split
    next hk =>
      have hfirst := (rooted_typesOf scope node hk hn.head).imp fun _ hd =>
        hd.mono (List.subset_append_left _ (nodes.map membersOf).flatten)
      exact hfirst.append hrest
    next => exact hrest

theorem rooted_nestedWithin (scope : Scope) : ∀ node : Node, TypesNamed node.nodes →
    Rooted (DeclaredIn scope (node.children.map membersOf).flatten) (nestedWithin scope node)
  | .mk _ _ _ children, hn => rooted_nestedIn scope children hn.inside

theorem rooted_nestedInBody (isBody : Node → Bool) (scope : Scope) : ∀ nodes : List Node,
    TypesNamed (Node.nodesIn nodes) →
    Rooted (DeclaredIn scope (bodyMembers (nodes.find? isBody))) (nestedInBody isBody scope nodes)
  | [], _ => .nil
  | node :: nodes, hn => by
    rw [nestedInBody, List.find?_cons]
    cases hb : isBody node with
    | true => exact rooted_nestedWithin scope node hn.head
    | false => exact rooted_nestedInBody isBody scope nodes hn.tail

end

theorem containing_after {scope : Scope} (h : scope.containing = []) (node : Node) :
    (scope.after node).containing = [] := by
  rw [Scope.after]
  split
  · split
    · split <;> exact h
    · exact h
  · split <;> exact h
  · exact h

mutual

theorem topLevel_typesOf (scope : Scope) (hs : scope.containing = []) : ∀ node : Node,
    TypesNamed node.nodes →
    Rooted (fun symbol => symbol.containingTypes = []) (typesOf scope node)
  | .mk kind role text children, hn => by
    by_cases hk : kind = .typeDeclaration
    · exact (rooted_typesOf scope (.mk kind role text children) hk hn).imp fun _ hd =>
        hd.containingTypes_eq.trans hs
    · rw [typesOf.eq_def]
      dsimp only
      split
      · split
        · exact topLevel_typesInBody _ _ rfl children hn.inside
        · exact .nil
      · split
        · exact topLevel_typesIn _ rfl children hn.inside
        · exact .nil
      · exact topLevel_typesIn scope.entered hs children hn.inside
      · exact absurd rfl hk
      · exact .nil

theorem topLevel_typesIn (scope : Scope) (hs : scope.containing = []) : ∀ nodes : List Node,
    TypesNamed (Node.nodesIn nodes) →
    Rooted (fun symbol => symbol.containingTypes = []) (typesIn scope nodes)
  | [], _ => .nil
  | node :: nodes, hn =>
    (topLevel_typesOf scope hs node hn.head).append
      (topLevel_typesIn (scope.after node) (containing_after hs node) nodes hn.tail)

theorem topLevel_typesWithin (scope : Scope) (hs : scope.containing = []) : ∀ node : Node,
    TypesNamed node.nodes →
    Rooted (fun symbol => symbol.containingTypes = []) (typesWithin scope node)
  | .mk _ _ _ children, hn => topLevel_typesIn scope hs children hn.inside

theorem topLevel_typesInBody (isBody : Node → Bool) (scope : Scope) (hs : scope.containing = []) :
    ∀ nodes : List Node, TypesNamed (Node.nodesIn nodes) →
    Rooted (fun symbol => symbol.containingTypes = []) (typesInBody isBody scope nodes)
  | [], _ => .nil
  | node :: nodes, hn => by
    rw [typesInBody]
    split
    · exact topLevel_typesWithin scope hs node hn.head
    · exact topLevel_typesInBody isBody scope hs nodes hn.tail

end

theorem rooted_collectTypes {tree : Node} (h : TypesNamed tree.nodes) :
    Rooted (fun symbol => symbol.containingTypes = []) (collectTypes tree) := by
  cases tree
  exact topLevel_typesIn {} rfl _ h.inside

def tableOf (trees : List Node) : TypeTable :=
  (trees.foldl (fun table tree => table.insertAll (collectTypes tree))
    (TypeTable.ofList [])).qualifyTypes

theorem tableOf_eq (trees : List Node) :
    tableOf trees = (TypeTable.ofList (trees.map collectTypes).flatten).qualifyTypes := by
  have hfold := TypeTable.foldl_insertAll (TypeTable.ofList []) (trees.map collectTypes)
  rw [List.foldl_map] at hfold
  rw [tableOf, hfold]
  exact congrArg TypeTable.qualifyTypes (TypeTable.empty_merge _)

theorem enclosing_types_have_entries {trees : List Node}
    (h : ∀ tree ∈ trees, TypesNamed tree.nodes) {symbol : TypeSymbol}
    (hs : symbol ∈ (tableOf trees).types) :
    ∃ containers : List TypeSymbol,
      symbol.containerNames.map (tableOf trees).get? = containers.map some ∧
      List.Forall₂ (fun container inner => .nestedType inner ∈ container.members)
        containers symbol.nestingChain.tail ∧
      symbol.isOpenIn (tableOf trees).model = (symbol :: containers).any TypeSymbol.isGeneric := by
  have hrooted : Rooted (fun symbol => symbol.containingTypes = [])
      (trees.map collectTypes).flatten := by
    apply Rooted.flatten
    intro symbols hm
    obtain ⟨tree, ht, rfl⟩ := List.mem_map.mp hm
    exact rooted_collectTypes (h tree ht)
  rw [tableOf_eq, TypeTable.types_qualifyTypes] at hs
  rw [tableOf_eq]
  obtain ⟨entry, he, rfl⟩ := List.mem_map.mp hs
  obtain ⟨containers, hc⟩ := (TypeTable.built_ofList _).exists_encloses hrooted he
  exact ⟨_, hc.qualifyTypes.entries, hc.qualifyTypes.members, hc.qualifyTypes.isOpenIn_eq⟩

def sampleType (name : String) (parameters : List String) (body : List Node) : Node :=
  .mk .typeDeclaration none ""
    [.mk .identifier (some .name) name [],
      .mk .typeParameterList (some .typeParameters) ""
        (parameters.map fun parameter => .mk .typeParameter none parameter []),
      .mk .declarationList (some .body) "" body]

def partialTrees : List Node :=
  [.mk .compilationUnit none ""
      [.mk .fileScopedNamespace none "" [.mk .qualifiedName (some .name) "Game.Outer" []],
        sampleType "Inner" [] []],
    .mk .compilationUnit none ""
      [.mk .fileScopedNamespace none "" [.mk .identifier (some .name) "Game" []],
        sampleType "Outer" ["T"] [sampleType "Inner" [] [sampleType "Deep" [] []]]]]

theorem enclosing_types_have_entries_partial :
    (∀ tree ∈ partialTrees, TypesNamed tree.nodes) ∧
    ∃ symbol ∈ (tableOf partialTrees).types,
      symbol.containerNames = ["Game.Outer", "Game.Outer.Inner"] ∧
      ∃ containers : List TypeSymbol,
        symbol.containerNames.map (tableOf partialTrees).get? = containers.map some ∧
        List.Forall₂ (fun container inner => .nestedType inner ∈ container.members)
          containers symbol.nestingChain.tail ∧
        symbol.isOpenIn (tableOf partialTrees).model =
          (symbol :: containers).any TypeSymbol.isGeneric := by
  have hnamed : ∀ tree ∈ partialTrees, TypesNamed tree.nodes := by decide +kernel
  have hdeep : ∃ symbol ∈ (tableOf partialTrees).types,
      symbol.containerNames = ["Game.Outer", "Game.Outer.Inner"] := by decide +kernel
  obtain ⟨symbol, hs, hnames⟩ := hdeep
  exact ⟨hnamed, symbol, hs, hnames, enclosing_types_have_entries hnamed hs⟩

end HookEvents.CSharp
