import HookEvents.Proofs.CSharp.Path

namespace HookEvents.CSharp

namespace Path

def toVariable (start : Node) : Path → Bool
  | [] => start.kind = .variableDeclarator
  | step :: rest => start.kind ≠ .variableDeclarator && toVariable step.node rest

theorem toVariable_iff {start : Node} {path : Path} :
    path.toVariable start = true ↔ (path.last start).kind = .variableDeclarator ∧
      ∀ front : Path, front <+: path → front ≠ path →
        (front.last start).kind ≠ .variableDeclarator := by
  induction path generalizing start with
  | nil =>
    rw [toVariable, decide_eq_true_iff]
    refine ⟨fun h => ⟨h, ?_⟩, fun h => h.1⟩
    intro front hf hne
    exact absurd (List.prefix_nil.mp hf) hne
  | cons step rest ih =>
    rw [toVariable, Bool.and_eq_true, decide_eq_true_iff, ih]
    constructor
    · rintro ⟨hstart, hlast, habove⟩
      refine ⟨hlast, ?_⟩
      intro front hf hne
      cases front with
      | nil => exact hstart
      | cons first front =>
        obtain ⟨rfl, hrest⟩ := List.cons_prefix_cons.mp hf
        exact habove front hrest fun h => hne (by rw [h])
    · rintro ⟨hlast, habove⟩
      refine ⟨habove [] List.nil_prefix (List.cons_ne_nil _ _).symm, hlast, ?_⟩
      intro front hf hne
      exact habove (step :: front) (List.cons_prefix_cons.mpr ⟨rfl, hf⟩) fun h =>
        hne (List.cons.inj h).2

end Path

def declarators (node : Node) : List Node :=
  (node.paths.filter (Path.toVariable node)).map (Path.last node)

theorem declarators_of_variable {node : Node} (h : node.kind = .variableDeclarator) :
    declarators node = [node] := by
  have hnone : (Node.pathsIn [] node.children).filter (Path.toVariable node) = [] := by
    apply List.filter_eq_nil_iff.mpr
    intro path hp
    obtain ⟨front, child, after, rest, -, -, rfl⟩ := Node.mem_pathsIn.mp hp
    simp [Path.toVariable, h]
  rw [declarators, Node.paths_eq, List.filter_cons_of_pos (by simp [Path.toVariable, h]), hnone]
  rfl

theorem map_last_toVariable {start : Node} (h : start.kind ≠ .variableDeclarator)
    (before nodes : List Node) :
    ((Node.pathsIn before nodes).filter (Path.toVariable start)).map (Path.last start) =
      nodes.flatMap declarators := by
  induction nodes generalizing before with
  | nil => simp [Node.pathsIn]
  | cons node nodes ih =>
    have hstep : Path.toVariable start ∘ (⟨before, node⟩ :: ·) = Path.toVariable node := by
      funext rest
      simp [Path.toVariable, h]
    rw [Node.pathsIn, List.filter_append, List.map_append, ih, List.filter_map, hstep, List.map_map,
      List.flatMap_cons]
    rfl

theorem declarators_of_other {node : Node} (h : node.kind ≠ .variableDeclarator) :
    declarators node = node.children.flatMap declarators := by
  rw [declarators, Node.paths_eq, List.filter_cons_of_neg (by simp [Path.toVariable, h]),
    map_last_toVariable h]

theorem kind_of_mem_declarators {node part : Node} (h : part ∈ declarators node) :
    part.kind = .variableDeclarator := by
  obtain ⟨path, hp, rfl⟩ := List.mem_map.mp h
  exact (Path.toVariable_iff.mp (List.mem_filter.mp hp).2).1

mutual

def variablesOf : Node → List String
  | .mk kind role text children =>
    if kind = .variableDeclarator then (variableName? (.mk kind role text children)).toList
    else variablesIn children

def variablesIn : List Node → List String
  | [] => []
  | node :: nodes => variablesOf node ++ variablesIn nodes

end

theorem variablesOf_variable {node : Node} (h : node.kind = .variableDeclarator) :
    variablesOf node = (variableName? node).toList := by
  cases node
  rw [variablesOf]
  exact if_pos h

theorem variablesOf_other {node : Node} (h : node.kind ≠ .variableDeclarator) :
    variablesOf node = variablesIn node.children := by
  cases node
  rw [variablesOf]
  exact if_neg h

theorem variablesIn_append (nodes others : List Node) :
    variablesIn (nodes ++ others) = variablesIn nodes ++ variablesIn others := by
  induction nodes with
  | nil => rw [variablesIn]; rfl
  | cons node nodes ih => rw [List.cons_append, variablesIn, variablesIn, ih, List.append_assoc]

mutual

theorem variablesOf_eq : ∀ node : Node,
    variablesOf node = (declarators node).filterMap variableName?
  | .mk kind role text children => by
    by_cases hk : (Node.mk kind role text children).kind = .variableDeclarator
    · rw [variablesOf_variable hk, declarators_of_variable hk, List.filterMap_cons,
        List.filterMap_nil]
      cases variableName? (.mk kind role text children) <;> rfl
    · rw [variablesOf_other hk, declarators_of_other hk]
      exact variablesIn_eq children

theorem variablesIn_eq : ∀ nodes : List Node,
    variablesIn nodes = (nodes.flatMap declarators).filterMap variableName?
  | [] => by simp [variablesIn]
  | node :: nodes => by
    rw [variablesIn, List.flatMap_cons, List.filterMap_append, variablesOf_eq, variablesIn_eq]

end

namespace VariableSearch

theorem variablesIn_next? {search next : VariableSearch} (h : search.next? = some next) :
    next.names ++ variablesIn next.stack = search.names ++ variablesIn search.stack := by
  obtain ⟨stack, names⟩ := search
  cases stack with
  | nil => exact absurd h (by simp [next?_nil])
  | cons node stack =>
    rw [variablesIn]
    by_cases hk : node.kind = .variableDeclarator
    · rw [next?_variable hk] at h
      obtain rfl := Option.some.inj h
      rw [variablesOf_variable hk, List.append_assoc]
    · rw [next?_other hk] at h
      obtain rfl := Option.some.inj h
      rw [variablesOf_other hk, variablesIn_append]

theorem next?_eq_none {search : VariableSearch} (h : search.next? = none) : search.stack = [] := by
  obtain ⟨stack, names⟩ := search
  cases stack with
  | nil => rfl
  | cons node stack =>
    by_cases hk : node.kind = .variableDeclarator
    · rw [next?_variable hk] at h
      exact absurd h (by simp)
    · rw [next?_other hk] at h
      exact absurd h (by simp)

theorem run_eq (search : VariableSearch) :
    search.run = search.names ++ variablesIn search.stack := by
  fun_induction run search with
  | case1 search hnone =>
    rw [next?_eq_none hnone, variablesIn, List.append_nil]
  | case2 search next hnext ih => rw [ih, variablesIn_next? hnext]

def after : Nat → VariableSearch → Option VariableSearch
  | 0, search => some search
  | turns + 1, search => search.next?.bind (after turns)

theorem exists_after_eq_run (search : VariableSearch) :
    ∃ turns ≤ Node.countIn search.stack, search.after turns = some ⟨[], search.run⟩ := by
  fun_induction run search with
  | case1 search hnone =>
    refine ⟨0, Nat.zero_le _, ?_⟩
    rw [after, ← next?_eq_none hnone]
  | case2 search next hnext ih =>
    obtain ⟨turns, hle, hafter⟩ := ih
    refine ⟨turns + 1, Nat.lt_of_le_of_lt hle (countIn_next? hnext), ?_⟩
    rw [after, hnext, Option.bind_some, hafter]

end VariableSearch

theorem variableNames_eq_variablesOf (node : Node) : variableNames node = variablesOf node := by
  rw [variableNames, VariableSearch.run_eq, variablesIn, variablesIn, List.append_nil]
  rfl

theorem variableNames_eq (node : Node) :
    variableNames node = (declarators node).filterMap variableName? := by
  rw [variableNames_eq_variablesOf, variablesOf_eq]

/-- **The search for declarators ends and finds what recursion finds.** It looks at no more nodes
than there are, and gives the names of the declarators with no declarator above them, from the start
on, in document order. -/
theorem variableNames_exact (node : Node) :
    (∃ turns ≤ node.count,
      VariableSearch.after turns { stack := [node] } = some ⟨[], variableNames node⟩) ∧
    variableNames node = variablesOf node ∧
    ∃ ways : List Path,
      (∀ way, way ∈ ways ↔ way.Within node ∧ (way.last node).kind = .variableDeclarator ∧
        ∀ front : Path, front <+: way → front ≠ way →
          (front.last node).kind ≠ .variableDeclarator) ∧
      (ways.map Path.position).Pairwise (· < ·) ∧
      variableNames node = ways.filterMap fun way =>
        (((way.last node).childFor? .name).or ((way.last node).childOf? .identifier)).map
          plainText := by
  refine ⟨?_, variableNames_eq_variablesOf node, node.paths.filter (Path.toVariable node), ?_, ?_, ?_⟩
  · obtain ⟨turns, hle, hafter⟩ := VariableSearch.exists_after_eq_run { stack := [node] }
    rw [Node.countIn, Node.countIn, Nat.add_zero] at hle
    exact ⟨turns, hle, hafter⟩
  · intro way
    rw [List.mem_filter, Node.mem_paths, Path.toVariable_iff]
  · have hpaths := List.pairwise_map.mp (Node.pairwise_paths node)
    exact List.pairwise_map.mpr (hpaths.filter _)
  · rw [variableNames_eq, declarators, List.filterMap_map]
    rfl

end HookEvents.CSharp
