import HookEvents.Proofs.CSharp.Place
import HookEvents.Proofs.Generation.Resolve
import HookEvents.Proofs.Keyed

namespace HookEvents.CSharp

open Text

def DeclarationsNamed (nodes : List Node) : Prop :=
  ∀ node ∈ nodes, node.kind = .namespaceDeclaration ∨ node.kind = .fileScopedNamespace ∨
    node.kind = .typeDeclaration → textFor? node .name ≠ none

instance : DecidablePred DeclarationsNamed :=
  fun nodes => inferInstanceAs (Decidable (∀ node ∈ nodes, node.kind = .namespaceDeclaration ∨
    node.kind = .fileScopedNamespace ∨ node.kind = .typeDeclaration → textFor? node .name ≠ none))

theorem DeclarationsNamed.cons {node : Node} {nodes : List Node}
    (h : DeclarationsNamed (Node.nodesIn (node :: nodes))) :
    DeclarationsNamed node.nodes ∧ DeclarationsNamed (Node.nodesIn nodes) := by
  rw [Node.nodesIn] at h
  exact List.forall_mem_append.mp h

theorem DeclarationsNamed.own {node : Node} (h : DeclarationsNamed node.nodes) :
    (node.kind = .namespaceDeclaration ∨ node.kind = .fileScopedNamespace ∨
      node.kind = .typeDeclaration → textFor? node .name ≠ none) ∧
      DeclarationsNamed (Node.nodesIn node.children) := by
  rw [Node.nodes_eq] at h
  exact List.forall_mem_cons.mp h

theorem DeclarationsNamed.of_mem {node : Node} {nodes : List Node}
    (h : DeclarationsNamed (Node.nodesIn nodes)) (hm : node ∈ nodes) :
    DeclarationsNamed node.nodes := by
  intro inner hi
  apply h
  rw [Node.nodesIn_eq_flatMap]
  exact List.mem_flatMap.mpr ⟨node, hm, hi⟩

theorem DeclarationsNamed.body {node body : Node} (h : DeclarationsNamed node.nodes)
    (hb : body? node = some body) : DeclarationsNamed (Node.nodesIn body.children) :=
  (h.own.2.of_mem (List.mem_of_find?_eq_some hb)).own.2

theorem textFor?_name {node : Node} (h : textFor? node .name ≠ none) :
    textFor? node .name = some (declaredName node) ∧ declaredName node ≠ "" := by
  obtain ⟨name, hname⟩ := Option.ne_none_iff_exists'.mp h
  have hne := (Option.filter_eq_some_iff.mp hname).2
  rw [declaredName, hname]
  exact ⟨rfl, by simpa using hne⟩

theorem childFor?_name {node : Node} (h : textFor? node .name ≠ none) :
    ∃ nameNode, node.childFor? .name = some nameNode ∧ plainText nameNode = declaredName node := by
  obtain ⟨htext, -⟩ := textFor?_name h
  obtain ⟨nameNode, hc, hp⟩ := Option.map_eq_some_iff.mp (Option.filter_eq_some_iff.mp htext).1
  exact ⟨nameNode, hc, hp⟩

section Joined

theorem joined_concat (names : List String) (name : String) :
    joined (names ++ [name]) = some (join "." (names ++ [name])) :=
  if_neg (by simp)

theorem namespaceIn?_joined {names : List String} (h : ∀ name ∈ names, name ≠ "") {node : Node}
    (hn : textFor? node .name ≠ none) :
    namespaceIn? (joined names) node = joined (names ++ [declaredName node]) := by
  have hjoin : (joined names).getD "" = join "." names := by
    rw [joined]
    split
    next hnil => rw [hnil]; rfl
    · rfl
  rw [namespaceIn?, (textFor?_name hn).1, hjoin, Option.map_some, joined_concat, join_concat _ _ h]

theorem filter_joined {names : List String} (h : ∀ name ∈ names, name ≠ "") :
    (joined names).filter (· ≠ "") = joined names := by
  rw [joined]
  split
  · rfl
  next hne => simp [Option.filter, join_ne_empty hne h]

@[simp] theorem fileScopedIn_nil : fileScopedIn [] = none := rfl

@[simp] theorem directivesIn_nil : directivesIn [] = [] := rfl

theorem fileScopedIn_concat (nodes : List Node) (node : Node) :
    fileScopedIn (nodes ++ [node]) =
      if node.kind = .fileScopedNamespace then some (declaredName node) else fileScopedIn nodes := by
  rw [fileScopedIn, List.filter_append]
  split
  next hk => simp [hk]
  next hk => simp [hk, fileScopedIn]

theorem directivesIn_concat (nodes : List Node) (node : Node) :
    directivesIn (nodes ++ [node]) = directivesIn nodes ++
      if node.kind = .usingDirective then (usingTarget? node).toList else [] := by
  rw [directivesIn, List.filter_append, List.filterMap_append, directivesIn]
  split
  next hk =>
    rw [List.filter_cons_of_pos (by simp [hk]), List.filter_nil, List.filterMap_cons]
    cases usingTarget? node <;> rfl
  next hk => rw [List.filter_cons_of_neg (by simp [hk]), List.filter_nil, List.filterMap_nil]

end Joined

/-- What holds behind some declarations of a scope, whose namespaces and directives are given. -/
structure Scope.Reached (scope : Scope) (outer known : List String) (before : List Node) :
    Prop where
  outer_eq : scope.outer = joined outer
  current_eq : scope.current = joined (outer ++ (fileScopedIn before).toList)
  containing_eq : scope.containing = []
  usings_eq : scope.usings = (known ++ directivesIn before).eraseDups
  named : ∀ name ∈ outer ++ (fileScopedIn before).toList, name ≠ ""

namespace Scope.Reached

variable {scope : Scope} {outer known : List String} {before : List Node}

theorem empty : Reached {} [] [] [] := ⟨rfl, rfl, rfl, rfl, by simp [fileScopedIn]⟩

theorem outer_named (h : scope.Reached outer known before) : ∀ name ∈ outer, name ≠ "" :=
  fun name hm => h.named name (List.mem_append_left _ hm)

theorem after (h : scope.Reached outer known before) {node : Node}
    (hn : DeclarationsNamed node.nodes) :
    (scope.after node).Reached outer known (before ++ [node]) := by
  -- Only directives and namespaces without braces change what holds behind them.
  by_cases hu : node.kind = .usingDirective
  · have hsame : fileScopedIn (before ++ [node]) = fileScopedIn before := by
      rw [fileScopedIn_concat, if_neg (by simp [hu])]
    have hfollow : (scope.after node).outer = scope.outer ∧
        (scope.after node).current = scope.current ∧
        (scope.after node).containing = scope.containing ∧
        (scope.after node).usings = (known ++ directivesIn (before ++ [node])).eraseDups := by
      rw [directivesIn_concat, if_pos hu, ← List.append_assoc, Scope.after, hu]
      cases hg : usingTarget? node with
      | none => simpa using h.usings_eq
      | some target =>
        rw [Option.toList_some, eraseDups_concat, ← h.usings_eq]
        dsimp only
        split <;> exact ⟨rfl, rfl, rfl, rfl⟩
    obtain ⟨ho, hc, ht, hd⟩ := hfollow
    exact ⟨ho.trans h.outer_eq, by rw [hc, hsame, h.current_eq], ht.trans h.containing_eq, hd,
      by rw [hsame]; exact h.named⟩
  have hdirectives : directivesIn (before ++ [node]) = directivesIn before := by
    rw [directivesIn_concat, if_neg hu, List.append_nil]
  by_cases hf : node.kind = .fileScopedNamespace
  · have htext := hn.own.1 (.inr (.inl hf))
    have hafter : scope.after node =
        { scope with current := joined (outer ++ [declaredName node]) } := by
      rw [Scope.after, hf, h.outer_eq, namespaceIn?_joined h.outer_named htext, joined_concat]
    rw [hafter]
    refine ⟨h.outer_eq, ?_, h.containing_eq, by rw [hdirectives]; exact h.usings_eq, ?_⟩
    · rw [fileScopedIn_concat, if_pos hf]
      rfl
    · rw [fileScopedIn_concat, if_pos hf]
      exact List.forall_mem_append.mpr ⟨h.outer_named, by simp [(textFor?_name htext).2]⟩
  · have hafter : scope.after node = scope := by
      rw [Scope.after]
      split <;> simp_all
    have hsame : fileScopedIn (before ++ [node]) = fileScopedIn before := by
      rw [fileScopedIn_concat, if_neg hf]
    rw [hafter]
    exact ⟨h.outer_eq, by rw [hsame]; exact h.current_eq, h.containing_eq,
      by rw [hdirectives]; exact h.usings_eq, by rw [hsame]; exact h.named⟩

theorem inNamespace (h : scope.Reached outer known before) {names : List String} {name : String}
    (hn : ∀ other ∈ names ++ [name], other ≠ "") :
    (scope.inNamespace (join "." (names ++ [name]))).Reached (names ++ [name])
      (known ++ directivesIn before) [] where
  outer_eq := (joined_concat names name).symm
  current_eq := by
    rw [fileScopedIn_nil, Option.toList_none, List.append_nil, joined_concat]
    rfl
  containing_eq := rfl
  usings_eq := by
    rw [directivesIn_nil, List.append_nil]
    exact h.usings_eq
  named := by simpa using hn

theorem entered (h : scope.Reached outer known before) :
    scope.entered.Reached (outer ++ (fileScopedIn before).toList) (known ++ directivesIn before) []
    where
  outer_eq := h.current_eq
  current_eq := by
    rw [fileScopedIn_nil, Option.toList_none, List.append_nil]
    exact h.current_eq
  containing_eq := h.containing_eq
  usings_eq := by
    rw [directivesIn_nil, List.append_nil]
    exact h.usings_eq
  named := by simpa using h.named

end Scope.Reached

section Ways

variable {α : Type} (f : Path → Option α)

theorem filterMap_pathsIn_cons (before : List Node) (node : Node) (nodes : List Node) :
    (Node.pathsIn before (node :: nodes)).filterMap f =
      (node.paths.filterMap fun rest => f (⟨before, node⟩ :: rest)) ++
        (Node.pathsIn (before ++ [node]) nodes).filterMap f := by
  rw [Node.pathsIn, List.filterMap_append, List.filterMap_map]
  rfl

theorem filterMap_paths_of_none {f : Path → Option α} (h : f [] = none) (node : Node) :
    node.paths.filterMap f = (Node.pathsIn [] node.children).filterMap f := by
  rw [Node.paths_eq, List.filterMap_cons_none h]

theorem filterMap_pathsIn_body {parent : Node} {f g : Path → Option α}
    (h : ∀ step rest, f (step :: rest) = if step.isBodyOf parent then g rest else none)
    {before nodes : List Node} (hb : before.any (isBodyAmong parent.children) = false) :
    (Node.pathsIn before nodes).filterMap f =
      ((nodes.find? (isBodyAmong parent.children)).toList.flatMap Node.paths).filterMap g := by
  induction nodes generalizing before with
  | nil => simp [Node.pathsIn]
  | cons node nodes ih =>
    rw [filterMap_pathsIn_cons]
    cases hn : isBodyAmong parent.children node with
    | true =>
      have hstep : Step.isBodyOf ⟨before, node⟩ parent = true := by simp [Step.isBodyOf, hn, hb]
      -- No way leads into a second body.
      have hrest : (Node.pathsIn (before ++ [node]) nodes).filterMap f = [] := by
        apply List.filterMap_eq_nil_iff.mpr
        intro path hp
        obtain ⟨front, child, after, rest, -, -, rfl⟩ := Node.mem_pathsIn.mp hp
        rw [h, if_neg (by simp [Step.isBodyOf, hn])]
      rw [hrest, List.append_nil, List.find?_cons_of_pos hn]
      simp only [h, hstep, if_true, Option.toList_some, List.flatMap_cons, List.flatMap_nil,
        List.append_nil]
    | false =>
      have hstep : Step.isBodyOf ⟨before, node⟩ parent = false := by simp [Step.isBodyOf, hn]
      rw [List.find?_cons_of_neg (by simp [hn]), ih (by simp [hb, hn])]
      simp [h, hstep]

end Ways

theorem typesInBody_eq_flatMap (isBody : Node → Bool) (scope : Scope) (nodes : List Node) :
    typesInBody isBody scope nodes =
      (nodes.find? isBody).toList.flatMap fun body => typesIn scope body.children := by
  induction nodes with
  | nil => rw [typesInBody]; rfl
  | cons node nodes ih =>
    rw [typesInBody]
    split
    next hb =>
      rw [List.find?_cons_of_pos hb]
      cases node
      simp [typesWithin, Node.children]
    next hb => rw [List.find?_cons_of_neg hb, ih]

theorem nestedInBody_eq_flatMap (isBody : Node → Bool) (scope : Scope) (nodes : List Node) :
    nestedInBody isBody scope nodes =
      (nodes.find? isBody).toList.flatMap fun body => nestedIn scope body.children := by
  induction nodes with
  | nil => rw [nestedInBody]; rfl
  | cons node nodes ih =>
    rw [nestedInBody]
    split
    next hb =>
      rw [List.find?_cons_of_pos hb]
      cases node
      simp [nestedWithin, Node.children]
    next hb => rw [List.find?_cons_of_neg hb, ih]

theorem sizeOf_children_lt (node : Node) : sizeOf node.children < sizeOf node := by
  obtain ⟨kind, role, text, children⟩ := node
  simp only [Node.children, Node.mk.sizeOf_spec]
  omega

theorem sizeOf_body_lt {node body : Node} (h : body? node = some body) :
    sizeOf body.children < sizeOf node := by
  have hbody := List.sizeOf_lt_of_mem (List.mem_of_find?_eq_some h)
  have hinner := sizeOf_children_lt body
  have houter := sizeOf_children_lt node
  omega

namespace Nested

def symbolIn (scope : Scope) (nested : Nested) : TypeSymbol :=
  symbolOf { scope with containing := scope.containing ++ nested.containers.map declaredName }
    (declaredName nested.type) nested.type

theorem symbolIn_within (scope : Scope) (container : Node) (nested : Nested) :
    (nested.within container).symbolIn scope =
      nested.symbolIn (scope.inType (declaredName container)) := by
  simp only [symbolIn, within, Scope.inType, List.map_cons, List.append_assoc, List.singleton_append]

theorem symbolIn_outermost (scope : Scope) (node : Node) :
    (⟨[], node⟩ : Nested).symbolIn scope = symbolOf scope (declaredName node) node := by
  simp only [symbolIn, List.map_nil, List.append_nil]

end Nested

theorem typesOf_type (scope : Scope) {node : Node} (hk : node.kind = .typeDeclaration)
    (hn : textFor? node .name ≠ none) :
    typesOf scope node = symbolOf scope (declaredName node) node ::
      (body? node).toList.flatMap fun body =>
        nestedIn (scope.inType (declaredName node)) body.children := by
  obtain ⟨nameNode, hc, hp⟩ := childFor?_name hn
  obtain ⟨kind, role, text, children⟩ := node
  obtain rfl : kind = .typeDeclaration := hk
  rw [typesOf]
  simp only [hc, hp, nestedInBody_eq_flatMap]
  rfl

theorem filterMap_nested? (node : Node) :
    node.paths.filterMap (Path.nested? node) = ⟨[], node⟩ ::
      ((body? node).toList.flatMap fun body =>
        (Node.pathsIn [] body.children).filterMap Path.member?).map (Nested.within node) := by
  rw [Node.paths_eq, List.filterMap_cons_some (by rw [Path.nested?]),
    filterMap_pathsIn_body (g := fun rest => (Path.member? rest).map (Nested.within node))
      (fun step rest => by rw [Path.nested?]) rfl, ← List.map_filterMap, List.filterMap_flatMap]
  simp only [filterMap_paths_of_none (show Path.member? [] = none by rw [Path.member?])]
  rfl

mutual

theorem typesOf_nested (scope : Scope) (node : Node) (hk : node.kind = .typeDeclaration)
    (hn : DeclarationsNamed node.nodes) :
    typesOf scope node = (node.paths.filterMap (Path.nested? node)).map (Nested.symbolIn scope) := by
  rw [typesOf_type scope hk (hn.own.1 (.inr (.inr hk))), filterMap_nested?, List.map_cons,
    Nested.symbolIn_outermost, List.map_map]
  congr 1
  cases hb : body? node with
  | none => rfl
  | some body =>
    have hsize := sizeOf_body_lt hb
    simp only [Option.toList_some, List.flatMap_singleton]
    rw [nestedIn_eq (scope.inType (declaredName node)) [] body.children (hn.body hb)]
    apply List.map_congr_left
    intro nested _
    exact (Nested.symbolIn_within scope node nested).symm
termination_by sizeOf node

theorem nestedIn_eq (scope : Scope) (before nodes : List Node)
    (hn : DeclarationsNamed (Node.nodesIn nodes)) :
    nestedIn scope nodes =
      ((Node.pathsIn before nodes).filterMap Path.member?).map (Nested.symbolIn scope) := by
  cases nodes with
  | nil => simp [nestedIn, Node.pathsIn]
  | cons node nodes =>
    rw [nestedIn, filterMap_pathsIn_cons, List.map_append,
      nestedIn_eq scope (before ++ [node]) nodes hn.cons.2]
    congr 1
    simp only [Path.member?]
    split
    next hk => exact typesOf_nested scope node hk hn.cons.1
    next hk => simp
termination_by sizeOf nodes

end

section Scopes

variable {scope : Scope} {outer known : List String} {before : List Node} {node : Node}

theorem Step.namespaces_other (hb : node.kind ≠ .namespaceDeclaration)
    (hf : node.kind ≠ .fileScopedNamespace) :
    Step.namespaces ⟨before, node⟩ = (fileScopedIn before).toList := by
  simp [Step.namespaces, Step.fileScoped?, Step.block?, fileScopedIn_concat, hb, hf]

theorem Step.namespaces_block (hk : node.kind = .namespaceDeclaration) :
    Step.namespaces ⟨before, node⟩ = (fileScopedIn before).toList ++ [declaredName node] := by
  simp [Step.namespaces, Step.fileScoped?, Step.block?, fileScopedIn_concat, hk]

theorem Step.namespaces_fileScoped (hk : node.kind = .fileScopedNamespace) :
    Step.namespaces ⟨before, node⟩ = [declaredName node] := by
  simp [Step.namespaces, Step.fileScoped?, Step.block?, fileScopedIn_concat, hk]

theorem Nested.members_eq (nested : Nested) :
    nested.members = bodyMembers (body? nested.type) := by
  rw [members, bodyMembers, List.filterMap_flatMap]
  cases body? nested.type with
  | none => rfl
  | some body =>
    simp only [Option.map_some, Option.getD_some, ← List.flatMap_def, funext membersOf_eq]

theorem symbolUnder_last (h : scope.Reached outer known before)
    (hk : node.kind = .typeDeclaration) (nested : Nested) :
    Place.symbolUnder outer known ⟨nested, [⟨before, node⟩]⟩ = nested.symbolIn scope := by
  have hspace : (nested.symbolIn scope).namespaceName =
      joined (outer ++ (fileScopedIn before).toList) := by
    rw [Nested.symbolIn, symbolOf_namespaceName]
    change scope.current.filter (· ≠ "") = _
    rw [h.current_eq, filter_joined h.named]
  have hstep : Step.namespaces ⟨before, node⟩ = (fileScopedIn before).toList :=
    Step.namespaces_other (by simp [hk]) (by simp [hk])
  have hall : Place.symbolUnder outer known ⟨nested, [⟨before, node⟩]⟩ =
      { nested.symbolIn scope with
        namespaceName := joined (outer ++ (fileScopedIn before).toList) } := by
    simp [Place.symbolUnder, Place.namespaces, Place.directives, hstep, Nested.symbolIn, symbolOf,
      TypeSymbol.inNamespace, TypeSymbol.nestedIn, TypeSymbol.withTypeParameters,
      TypeSymbol.withUsings, Nested.members_eq, bodyMembers, h.containing_eq, h.usings_eq]
  rw [hall, ← hspace]

theorem map_symbolUnder_behind (step : Step) (places : List Place) :
    (places.map (Place.behind step)).map (Place.symbolUnder outer known) =
      places.map (Place.symbolUnder (outer ++ step.namespaces)
        (known ++ directivesIn step.before)) := by
  rw [List.map_map]
  exact List.map_congr_left fun place _ => Place.symbolUnder_behind outer known step place

theorem typesOf_block (h : scope.Reached outer known before)
    (hk : node.kind = .namespaceDeclaration) (hn : textFor? node .name ≠ none) :
    typesOf scope node = (body? node).toList.flatMap fun body =>
      typesIn (scope.inNamespace
        (join "." (outer ++ (fileScopedIn before).toList ++ [declaredName node]))) body.children := by
  have hspace := namespaceIn?_joined h.named hn
  rw [← h.current_eq, joined_concat] at hspace
  obtain ⟨kind, role, text, children⟩ := node
  obtain rfl : kind = .namespaceDeclaration := hk
  rw [typesOf]
  simp only [hspace, typesInBody_eq_flatMap]
  rfl

theorem typesOf_fileScoped (h : scope.Reached outer known before)
    (hk : node.kind = .fileScopedNamespace) (hn : textFor? node .name ≠ none) :
    typesOf scope node =
      typesIn (scope.inNamespace (join "." (outer ++ [declaredName node]))) node.children := by
  have hspace := namespaceIn?_joined h.outer_named hn
  rw [← h.outer_eq, joined_concat] at hspace
  obtain ⟨kind, role, text, children⟩ := node
  obtain rfl : kind = .fileScopedNamespace := hk
  rw [typesOf]
  simp only [hspace]
  rfl

theorem filterMap_inBody? (node : Node) :
    node.paths.filterMap (Path.inBody? node) = (body? node).toList.flatMap fun body =>
      (Node.pathsIn [] body.children).filterMap Path.place? := by
  rw [filterMap_paths_of_none (by rw [Path.inBody?]),
    filterMap_pathsIn_body (g := Path.place?) (fun step rest => by rw [Path.inBody?]) rfl,
    List.filterMap_flatMap]
  simp only [filterMap_paths_of_none (show Path.place? [] = none by rw [Path.place?])]
  rfl

end Scopes

mutual

theorem typesOf_eq {scope : Scope} {outer known : List String} {before : List Node} (node : Node)
    (h : scope.Reached outer known before) (hn : DeclarationsNamed node.nodes) :
    typesOf scope node = (node.paths.filterMap fun rest => Path.place? (⟨before, node⟩ :: rest)).map
      (Place.symbolUnder outer known) := by
  -- One case for each way on from a scope; the lists entered are smaller than the node.
  have hchildren := sizeOf_children_lt node
  simp only [Path.place?]
  cases hk : node.kind
  case namespaceDeclaration =>
    have htext := hn.own.1 (.inl hk)
    rw [typesOf_block h hk htext, ← List.map_filterMap, map_symbolUnder_behind, filterMap_inBody?]
    cases hb : body? node with
    | none => rfl
    | some body =>
      have hsize := sizeOf_body_lt hb
      simp only [Option.toList_some, List.flatMap_singleton]
      rw [Step.namespaces_block hk, ← List.append_assoc]
      refine typesIn_eq body.children (h.inNamespace ?_) (hn.body hb)
      exact List.forall_mem_append.mpr ⟨h.named, by simp [(textFor?_name htext).2]⟩
  case fileScopedNamespace =>
    have htext := hn.own.1 (.inr (.inl hk))
    rw [typesOf_fileScoped h hk htext, ← List.map_filterMap, map_symbolUnder_behind,
      filterMap_paths_of_none (by rw [Path.place?]), Step.namespaces_fileScoped hk]
    refine typesIn_eq node.children (h.inNamespace ?_) hn.own.2
    exact List.forall_mem_append.mpr ⟨h.outer_named, by simp [(textFor?_name htext).2]⟩
  case declarationList =>
    have hlist : typesOf scope node = typesIn scope.entered node.children := by
      obtain ⟨kind, role, text, children⟩ := node
      obtain rfl : kind = .declarationList := hk
      rw [typesOf]
      rfl
    rw [hlist, ← List.map_filterMap, map_symbolUnder_behind,
      filterMap_paths_of_none (by rw [Path.place?]),
      Step.namespaces_other (by simp [hk]) (by simp [hk])]
    exact typesIn_eq node.children h.entered hn.own.2
  case typeDeclaration =>
    rw [typesOf_nested scope node hk hn, ← List.map_filterMap, List.map_map]
    exact List.map_congr_left fun nested _ => (symbolUnder_last h hk nested).symm
  all_goals
    obtain ⟨kind, role, text, children⟩ := node
    obtain rfl := hk
    simp [typesOf]
termination_by sizeOf node

theorem typesIn_eq {scope : Scope} {outer known : List String} {before : List Node}
    (nodes : List Node) (h : scope.Reached outer known before)
    (hn : DeclarationsNamed (Node.nodesIn nodes)) :
    typesIn scope nodes = ((Node.pathsIn before nodes).filterMap Path.place?).map
      (Place.symbolUnder outer known) := by
  cases nodes with
  | nil => simp [typesIn, Node.pathsIn]
  | cons node nodes =>
    rw [typesIn, filterMap_pathsIn_cons, List.map_append, typesOf_eq node h hn.cons.1,
      typesIn_eq nodes (h.after hn.cons.1) hn.cons.2]
termination_by sizeOf nodes

end

theorem collectTypes_exact {tree : Node} (h : DeclarationsNamed (Node.nodesIn tree.children)) :
    ∃ places : List (Path × Place),
      (∀ path place, (path, place) ∈ places ↔ path.Within tree ∧ path.place? = some place) ∧
      (places.map (·.1.position)).Pairwise (· < ·) ∧
      collectTypes tree = places.map (·.2.symbol) ∧
      (∀ found ∈ places, found.2.type = found.1.last tree ∧
        found.2.type.kind = .typeDeclaration) ∧
      ((∀ child ∈ tree.children, child.BlocksInside) → ∀ found ∈ places, found.2.namespaces =
        (found.1.head?.bind Step.fileScoped?).toList ++ found.2.blocks) := by
  refine ⟨Node.located Path.place? tree, fun path place => Node.mem_located,
    Node.pairwise_located _ tree, ?_, ?_, ?_⟩
  · have hmap : (Node.located Path.place? tree).map (·.2.symbol) =
        ((Node.located Path.place? tree).map (·.2)).map Place.symbol := by
      rw [List.map_map]
      rfl
    rw [hmap, Node.map_snd_located, filterMap_paths_of_none (by rw [Path.place?]), collectTypes,
      typesIn_eq tree.children .empty h]
    rfl
  · rintro ⟨path, place⟩ hm
    exact Path.place?_last tree (Node.mem_located.mp hm).2
  · rintro hblocks ⟨path, place⟩ hm
    obtain ⟨hw, hp⟩ := Node.mem_located.mp hm
    cases path with
    | nil => rw [Path.place?] at hp; exact absurd hp (by simp)
    | cons step rest =>
      obtain ⟨⟨after, hc⟩, hrest⟩ := hw
      have hinside := hblocks step.node (hc ▸ List.mem_append_right _ List.mem_cons_self)
      exact Place.namespaces_cons hinside hrest hp

def namedNode (kind : NodeKind) (name : String) (parts : List Node) : Node :=
  .mk kind none "" (.mk .identifier (some .name) name [] :: parts)

def layered : Node :=
  .mk .compilationUnit none ""
    [namedNode .fileScopedNamespace "F" [],
      namedNode .typeDeclaration "A" [],
      namedNode .namespaceDeclaration "N.M" [.mk .declarationList (some .body) ""
        [namedNode .typeDeclaration "B" [.mk .declarationList (some .body) ""
          [.mk .fieldDeclaration none "" [.mk .variableDeclaration none ""
              [namedNode .variableDeclarator "a" [], namedNode .variableDeclarator "b" []]],
            namedNode .methodDeclaration "R" [],
            namedNode .typeDeclaration "C" []]]]],
      namedNode .fileScopedNamespace "G" [namedNode .typeDeclaration "D" []],
      namedNode .typeDeclaration "E" []]

theorem collectTypes_exact_layered :
    DeclarationsNamed (Node.nodesIn layered.children) ∧
      (∀ child ∈ layered.children, child.BlocksInside) ∧
      ∃ places : List (Path × Place),
        (∀ found ∈ places, found.2.namespaces =
          (found.1.head?.bind Step.fileScoped?).toList ++ found.2.blocks) ∧
        collectTypes layered = places.map (·.2.symbol) ∧
        places.map (·.2.symbol) =
          [{ name := "A", namespaceName := some "F" },
            { name := "B", namespaceName := some "F.N.M",
              members := [.field "a", .field "b", .method { name := "R" }, .nestedType "C"] },
            { name := "C", namespaceName := some "F.N.M", containingTypes := ["B"] },
            { name := "D", namespaceName := some "G" },
            { name := "E", namespaceName := some "G" }] := by
  have hnamed : DeclarationsNamed (Node.nodesIn layered.children) := by decide +kernel
  have hblocks : ∀ child ∈ layered.children, child.BlocksInside := by decide +kernel
  obtain ⟨places, -, -, hsymbols, -, hnamespaces⟩ := collectTypes_exact hnamed
  exact ⟨hnamed, hblocks, places, hnamespaces hblocks, hsymbols,
    hsymbols.symm.trans (by decide +kernel)⟩

/-- The latest namespace without braces that encloses the end of a way or stands in front of it. -/
def Path.latestFileScoped? (path : Path) : Option String :=
  (path.filterMap Step.fileScoped?).getLast?

/-- Types in front of a namespace without braces and behind it, in the block of a namespace that
itself stands behind one. -/
def reopened : Node :=
  .mk .compilationUnit none ""
    [namedNode .fileScopedNamespace "F" [],
      namedNode .namespaceDeclaration "N" [.mk .declarationList (some .body) ""
        [namedNode .typeDeclaration "A" [],
          namedNode .fileScopedNamespace "G" [],
          namedNode .typeDeclaration "B" []]]]

def stacked : Node :=
  .mk .compilationUnit none ""
    [namedNode .fileScopedNamespace "F"
      [namedNode .fileScopedNamespace "G" [namedNode .typeDeclaration "A" []]]]

/-- Namespaces without braces add up over the scopes on the way, outermost first: more than the
latest of them counts, and it need not come last. -/
theorem namespaces_accumulate :
    let around := fun found : Path × Place =>
      (found.2.symbol.namespaceName, found.2.blocks, found.1.latestFileScoped?)
    DeclarationsNamed (Node.nodesIn reopened.children) ∧
    DeclarationsNamed (Node.nodesIn stacked.children) ∧
    (Node.located Path.place? reopened).map around =
      [(some "F.N", ["N"], some "F"), (some "F.N.G", ["N"], some "G")] ∧
    (Node.located Path.place? stacked).map around = [(some "F.G", [], some "G")] ∧
    (collectTypes reopened).map (·.namespaceName) = [some "F.N", some "F.N.G"] ∧
    (collectTypes stacked).map (·.namespaceName) = [some "F.G"] := by
  decide +kernel

end HookEvents.CSharp
