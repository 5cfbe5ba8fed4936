import HookEvents.Proofs.CSharp.Nesting

/-!
Places in a syntax tree: the way from a node to one inside it, child by child. In document order a
node comes before what is inside it, and what is inside a child before the next child.
-/
namespace HookEvents.CSharp

/-- A child, with the children in front of it. -/
structure Step where
  before : List Node
  node : Node

abbrev Path := List Step

namespace Path

def position (path : Path) : List Nat := path.map (·.before.length)

def last (start : Node) : Path → Node
  | [] => start
  | step :: rest => last step.node rest

def Within (start : Node) : Path → Prop
  | [] => True
  | step :: rest =>
    (∃ after, start.children = step.before ++ step.node :: after) ∧ Within step.node rest

end Path

namespace Node

mutual

def paths : Node → List Path
  | .mk _ _ _ children => [] :: pathsIn [] children

def pathsIn (before : List Node) : List Node → List Path
  | [] => []
  | node :: nodes => node.paths.map (⟨before, node⟩ :: ·) ++ pathsIn (before ++ [node]) nodes

end

theorem nodes_eq (node : Node) : node.nodes = node :: nodesIn node.children := by
  cases node
  rw [nodes]
  rfl

theorem nodesIn_eq_flatMap (nodes : List Node) : nodesIn nodes = nodes.flatMap Node.nodes := by
  induction nodes with
  | nil => rw [nodesIn]; rfl
  | cons node nodes ih => rw [nodesIn, ih, List.flatMap_cons]

theorem paths_eq (node : Node) : node.paths = [] :: pathsIn [] node.children := by
  cases node
  rw [paths]
  rfl

mutual

theorem mem_paths : ∀ {node : Node} {path : Path}, path ∈ node.paths ↔ path.Within node
  | .mk _ _ _ children, [] => by simp [paths, Path.Within]
  | .mk _ _ _ children, step :: rest => by
    rw [paths, List.mem_cons, mem_pathsIn, Path.Within]
    constructor
    · rintro (h | ⟨front, node, after, tail, hc, ht, h⟩)
      · exact absurd h (List.cons_ne_nil _ _)
      · obtain ⟨rfl, rfl⟩ := List.cons.inj h
        exact ⟨⟨after, hc⟩, ht⟩
    · rintro ⟨⟨after, hc⟩, ht⟩
      exact .inr ⟨step.before, step.node, after, rest, hc, ht, rfl⟩

theorem mem_pathsIn : ∀ {before nodes : List Node} {path : Path},
    path ∈ pathsIn before nodes ↔ ∃ front node after, ∃ rest : Path,
      nodes = front ++ node :: after ∧ rest.Within node ∧ path = ⟨before ++ front, node⟩ :: rest
  | before, [], path => by simp [pathsIn]
  | before, first :: nodes, path => by
    rw [pathsIn, List.mem_append, List.mem_map, mem_pathsIn]
    constructor
    · rintro (⟨rest, hr, rfl⟩ | ⟨front, node, after, rest, rfl, hr, rfl⟩)
      · exact ⟨[], first, nodes, rest, rfl, mem_paths.mp hr, by rw [List.append_nil]⟩
      · exact ⟨first :: front, node, after, rest, rfl, hr, by rw [← List.append_cons]⟩
    · rintro ⟨front, node, after, rest, hn, hr, rfl⟩
      cases front with
      | nil =>
        obtain ⟨rfl, rfl⟩ := List.cons.inj hn
        exact .inl ⟨rest, mem_paths.mpr hr, by rw [List.append_nil]⟩
      | cons other front =>
        obtain ⟨rfl, rfl⟩ := List.cons.inj hn
        exact .inr ⟨front, node, after, rest, rfl, hr, by rw [List.append_cons]⟩

end

mutual

theorem pairwise_paths : ∀ node : Node, (node.paths.map Path.position).Pairwise (· < ·)
  | .mk _ _ _ children => by
    rw [paths, List.map_cons, List.pairwise_cons]
    refine ⟨?_, pairwise_pathsIn [] children⟩
    intro position hp
    obtain ⟨path, hpath, rfl⟩ := List.mem_map.mp hp
    obtain ⟨front, node, after, rest, -, -, rfl⟩ := mem_pathsIn.mp hpath
    exact List.nil_lt_cons _ _

theorem pairwise_pathsIn : ∀ before nodes : List Node,
    ((pathsIn before nodes).map Path.position).Pairwise (· < ·)
  | before, [] => by simp [pathsIn]
  | before, node :: nodes => by
    rw [pathsIn, List.map_append, List.pairwise_append]
    refine ⟨?_, pairwise_pathsIn _ nodes, ?_⟩
    · rw [List.map_map]
      have hnode := List.pairwise_map.mp (pairwise_paths node)
      refine List.pairwise_map.mpr (hnode.imp fun {path other} hlt => ?_)
      exact List.cons_lt_cons_iff.mpr (.inr ⟨rfl, hlt⟩)
    · intro position hp position' hp'
      obtain ⟨path, hpath, rfl⟩ := List.mem_map.mp hp
      obtain ⟨rest, -, rfl⟩ := List.mem_map.mp hpath
      obtain ⟨path', hpath', rfl⟩ := List.mem_map.mp hp'
      obtain ⟨front, other, after, rest', -, -, rfl⟩ := mem_pathsIn.mp hpath'
      -- The later way passes at least one child more at its first step.
      have hlt : before.length < (before ++ [node] ++ front).length := by
        simp only [List.length_append, List.length_cons, List.length_nil]
        omega
      exact List.cons_lt_cons_iff.mpr (.inl hlt)

end

mutual

theorem map_last_paths : ∀ node : Node, node.paths.map (Path.last node) = node.nodes
  | .mk kind role text children => by
    rw [paths, nodes, List.map_cons, map_last_pathsIn]
    rfl

theorem map_last_pathsIn (start : Node) : ∀ before nodes : List Node,
    (pathsIn before nodes).map (Path.last start) = nodesIn nodes
  | before, [] => by simp [pathsIn, nodesIn]
  | before, node :: nodes => by
    rw [pathsIn, nodesIn, List.map_append, List.map_map, map_last_pathsIn start]
    congr 1
    exact map_last_paths node

end

section Located

variable {α : Type} (find : Path → Option α) (tree : Node)

def located : List (Path × α) :=
  tree.paths.filterMap fun path => (find path).map fun found => (path, found)

theorem mem_located {find : Path → Option α} {tree : Node} {path : Path} {found : α} :
    (path, found) ∈ located find tree ↔ path.Within tree ∧ find path = some found := by
  rw [located, List.mem_filterMap]
  constructor
  · rintro ⟨other, ho, h⟩
    obtain ⟨value, hv, he⟩ := Option.map_eq_some_iff.mp h
    obtain ⟨rfl, rfl⟩ := Prod.mk.inj he
    exact ⟨mem_paths.mp ho, hv⟩
  · rintro ⟨hw, hf⟩
    exact ⟨path, mem_paths.mpr hw, by rw [hf, Option.map_some]⟩

theorem pairwise_located : ((located find tree).map (·.1.position)).Pairwise (· < ·) := by
  rw [List.pairwise_map, located, List.pairwise_filterMap]
  refine (List.pairwise_map.mp (pairwise_paths tree)).imp ?_
  intro path other hlt found hf found' hf'
  obtain ⟨_, _, rfl⟩ := Option.map_eq_some_iff.mp hf
  obtain ⟨_, _, rfl⟩ := Option.map_eq_some_iff.mp hf'
  exact hlt

theorem map_snd_located : (located find tree).map (·.2) = tree.paths.filterMap find := by
  rw [located, List.map_filterMap]
  apply List.filterMap_congr
  intro path _
  rw [Option.map_map]
  exact Option.map_id'

end Located

end Node

end HookEvents.CSharp
