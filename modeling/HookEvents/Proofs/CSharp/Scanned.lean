import HookEvents.CSharp.References
import HookEvents.Proofs.CSharp.Path
import HookEvents.Proofs.Hook.Idiom
import HookEvents.Proofs.Hook.Merge

namespace HookEvents.CSharp

open Text

structure Hooks (node target : Node) : Prop where
  kind_eq : node.kind = .assignment
  left_eq : node.childFor? .left = some target
  access : target.kind = .memberAccess ∨ target.kind = .qualifiedName
  operator : ∃ operator, node.childFor? .operator = some operator ∧
    (operator.text = "+=" ∨ operator.text = "-=")

def leftText (node : Node) : String := ((node.childFor? .left).map Node.text).getD ""

theorem referenceOf?_eq_some {node : Node} {reference : HookReference} :
    referenceOf? node = some reference ↔
      ∃ target, Hooks node target ∧ HookReference.parse target.text = some reference := by
  constructor
  · intro h
    rw [referenceOf?] at h
    split at h
    next hk =>
      split at h
      next target operator hl ho =>
        split at h
        next hc =>
          simp only [hookOperators, Bool.and_eq_true, Bool.or_eq_true, decide_eq_true_eq,
            List.contains_iff_mem, List.mem_cons, List.not_mem_nil, or_false] at hc
          exact ⟨target, ⟨hk, hl, hc.1, operator, ho, hc.2⟩, h⟩
        · exact absurd h (by simp)
      · exact absurd h (by simp)
    · exact absurd h (by simp)
  · rintro ⟨target, ⟨hk, hl, ha, operator, ho, ht⟩, hp⟩
    simp [referenceOf?, hookOperators, hk, hl, ho, ha, ht, hp]

theorem text_of_parse {text : String} {reference : HookReference}
    (h : HookReference.parse text = some reference) : reference.text = trim text := by
  obtain ⟨_, _, _, _, _, _, _, ht, _⟩ := HookReference.parse_eq_some h
  exact ht

theorem text_of_referenceOf? {node : Node} {reference : HookReference}
    (h : referenceOf? node = some reference) : reference.text = trim (leftText node) := by
  obtain ⟨target, hooks, hp⟩ := referenceOf?_eq_some.mp h
  rw [text_of_parse hp, leftText, hooks.left_eq]
  rfl

mutual

theorem referencesIn_eq : ∀ node : Node, referencesIn node = node.nodes.filterMap referenceOf?
  | .mk kind role text children => by
    rw [referencesIn, Node.nodes, List.filterMap_cons, referencesInAll_eq]
    cases referenceOf? (.mk kind role text children) <;> rfl

theorem referencesInAll_eq : ∀ nodes : List Node,
    referencesInAll nodes = (Node.nodesIn nodes).filterMap referenceOf?
  | [] => by rw [referencesInAll, Node.nodesIn, List.filterMap_nil]
  | node :: nodes => by
    rw [referencesInAll, Node.nodesIn, List.filterMap_append, referencesIn_eq, referencesInAll_eq]

end

theorem built_collectReferences (tree : Node) :
    (collectReferences tree).Built (tree.nodes.filterMap referenceOf?) := by
  rw [collectReferences, referencesIn_eq]
  exact HookReferences.built_ofList _

theorem parse_text_of_mem {tree : Node} {kind : HookKind} {reference : HookReference}
    (h : reference ∈ ((collectReferences tree).ofKind kind).references) :
    HookReference.parse reference.text = some reference := by
  rw [(built_collectReferences tree).ofKind_eq] at h
  rcases ReferenceSet.mem_foldl_add h with hm | hm
  · exact absurd hm List.not_mem_nil
  · obtain ⟨node, -, hn⟩ := List.mem_filterMap.mp (List.mem_filter.mp hm).1
    obtain ⟨target, -, hp⟩ := referenceOf?_eq_some.mp hn
    rw [text_of_parse hp, HookReference.parse_trim, hp]

def hookMatches (tree : Node) : List (Path × HookReference) :=
  tree.located fun path => referenceOf? (path.last tree)

theorem map_snd_hookMatches (tree : Node) :
    (hookMatches tree).map (·.2) = tree.nodes.filterMap referenceOf? := by
  rw [hookMatches, Node.map_snd_located, ← Node.map_last_paths, List.filterMap_map]
  rfl

theorem texts_collectReferences (tree : Node) (kind : HookKind) :
    ((collectReferences tree).ofKind kind).texts =
      (((hookMatches tree).filter (·.2.kind = kind)).map
        fun found => trim (leftText (found.1.last tree))).eraseDups := by
  rw [(built_collectReferences tree).ofKind_eq, ReferenceSet.texts_foldl_add,
    ← map_snd_hookMatches, List.filter_map, List.map_map]
  refine congrArg List.eraseDups (List.map_congr_left ?_)
  rintro ⟨path, reference⟩ hm
  exact text_of_referenceOf? (Node.mem_located.mp (List.mem_filter.mp hm).1).2

theorem merge_collectReferences (refs : HookReferences) (tree : Node) :
    refs.merge (collectReferences tree) =
      ((hookMatches tree).map (·.2)).foldl HookReferences.add refs := by
  apply HookReferences.ext_ofKind
  intro kind
  have hbuilt := built_collectReferences tree
  rw [hbuilt.ofKind_merge, hbuilt.references_ofKind, ReferenceSet.foldl_add_eraseDups,
    map_snd_hookMatches]
  exact (HookReferences.ofKind_insertAll refs _ kind).symm

/-- The list of a kind holds the trimmed texts of the targets of its hook assignments, each at its
first place in document order. Merging is inserting what the places make, one by one. -/
theorem collectReferences_exact (tree : Node) :
    ∃ places : List (Path × HookReference),
      (∀ path reference, (path, reference) ∈ places ↔ path.Within tree ∧
        ∃ target, Hooks (path.last tree) target ∧
          HookReference.parse target.text = some reference) ∧
      (places.map (·.1.position)).Pairwise (· < ·) ∧
      (∀ kind, ((collectReferences tree).ofKind kind).texts =
        ((places.filter (·.2.kind = kind)).map
          fun found => trim (leftText (found.1.last tree))).eraseDups) ∧
      (∀ kind, ∀ reference ∈ ((collectReferences tree).ofKind kind).references,
        HookReference.parse reference.text = some reference) ∧
      ∀ refs : HookReferences, refs.merge (collectReferences tree) =
        (places.map (·.2)).foldl HookReferences.add refs := by
  refine ⟨hookMatches tree, ?_, Node.pairwise_located _ tree, texts_collectReferences tree, ?_, ?_⟩
  · intro path reference
    rw [hookMatches, Node.mem_located, referenceOf?_eq_some]
  · exact fun kind reference hr => parse_text_of_mem hr
  · exact fun refs => merge_collectReferences refs tree

end HookEvents.CSharp
