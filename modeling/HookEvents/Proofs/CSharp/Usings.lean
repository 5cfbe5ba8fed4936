import HookEvents.Proofs.CSharp.Declared

namespace HookEvents.CSharp

open Text

/-- What stands between the keyword of a directive for its own scope and the semicolon. -/
def statedTarget? (directive : Node) : Option String :=
  match dropStart "using" (plainText directive) with
  | some rest =>
    let target := trim (dropEndWhile ';' rest)
    if target = "" then none else some target
  | none => none

def isSpaced (directive : Node) : Bool := startsWith "using " (plainText directive)

section Target

theorem dropEndWhile_append {c : Char} {front : String} (h : front.toList.getLast? ≠ some c)
    (hf : front ≠ "") (s : String) : dropEndWhile c (front ++ s) = front ++ dropEndWhile c s := by
  obtain ⟨cs, last, hcs⟩ := List.eq_nil_or_concat front.toList |>.resolve_left (by simpa using hf)
  have hlast : last ≠ c := by
    intro he
    rw [hcs] at h
    exact h (by simp [he])
  have hdrop (back : List Char) : (back ++ front.toList.reverse).dropWhile (· = c) =
      back.dropWhile (· = c) ++ front.toList.reverse := by
    induction back with
    | nil => simp [hcs, hlast]
    | cons d back ih =>
      by_cases hd : d = c
      · simpa [List.dropWhile_cons, hd] using ih
      · simp [hd]
  rw [← String.toList_inj]
  simp only [dropEndWhile, String.toList_ofList, String.toList_append, List.reverse_append, hdrop,
    List.reverse_reverse]

theorem usingTarget?_eq (directive : Node) :
    usingTarget? directive = if isSpaced directive then statedTarget? directive else none := by
  cases hs : dropStart "using " (plainText directive) with
  | none =>
    have hnot : isSpaced directive = false := by
      rw [Bool.eq_false_iff]
      intro hspaced
      obtain ⟨rest, hr⟩ := startsWith_iff.mp hspaced
      rw [dropStart_eq_some.mpr hr] at hs
      exact absurd hs (by simp)
    rw [usingTarget?, hs, hnot]
    rfl
  | some rest =>
    have htext := dropStart_eq_some.mp hs
    have hspaced : isSpaced directive = true := startsWith_iff.mpr ⟨rest, htext⟩
    have hkeyword : dropStart "using" (plainText directive) = some (" " ++ rest) := by
      rw [dropStart_eq_some, htext, ← String.append_assoc]
      rfl
    have htrim : trim (dropEndWhile ';' (" " ++ rest)) = trim (dropEndWhile ';' rest) := by
      have hblank : isBlank ' ' = true := by decide
      have hspace : ∀ c ∈ " ".toList, isBlank c = true := by simpa using hblank
      have hnone : ∀ c ∈ "".toList, isBlank c = true := by simp
      have hsurrounded := trim_surrounded hspace hnone (dropEndWhile ';' rest)
      rw [dropEndWhile_append (by decide) (by decide)]
      rwa [String.append_empty] at hsurrounded
    rw [usingTarget?, hs, statedTarget?, hkeyword, if_pos hspaced]
    simp only [htrim]

end Target

def Place.directiveNodes (place : Place) : List Node :=
  place.scopes.flatMap fun step => step.before.filter (·.kind = .usingDirective)

theorem Place.directives_eq (place : Place) :
    place.directives = (place.directiveNodes.filter isSpaced).filterMap statedTarget? := by
  have htarget : usingTarget? = fun directive =>
      if isSpaced directive then statedTarget? directive else none := funext usingTarget?_eq
  rw [directives, directiveNodes, List.filterMap_filter, List.filterMap_flatMap]
  simp only [directivesIn, htarget]

section Scopes

variable {scope inner : Scope} {known : List String}

theorem usings_after (h : scope.usings = known.eraseDups) (node : Node) :
    (scope.after node).usings = (known ++ directivesIn [node]).eraseDups := by
  rw [Scope.after]
  cases hk : node.kind
  case usingDirective =>
    have hone : directivesIn [node] = (usingTarget? node).toList := by
      rw [← List.nil_append [node], directivesIn_concat, if_pos hk]
      simp [directivesIn]
    rw [hone]
    cases usingTarget? node with
    | none => simpa using h
    | some target =>
      rw [Option.toList_some, eraseDups_concat, ← h]
      dsimp only
      split <;> rfl
  case fileScopedNamespace =>
    have hnone : directivesIn [node] = [] := by simp [directivesIn, hk]
    rw [hnone, List.append_nil, ← h]
    dsimp only
    split <;> rfl
  all_goals
    have hnone : directivesIn [node] = [] := by simp [directivesIn, hk]
    rw [hnone, List.append_nil, ← h]

theorem usings_past (h : scope.usings = known.eraseDups) (nodes : List Node) :
    (scope.past nodes).usings = (known ++ directivesIn nodes).eraseDups := by
  induction nodes generalizing scope known with
  | nil =>
    rw [directivesIn_nil, List.append_nil]
    exact h
  | cons node nodes ih =>
    have hcons : directivesIn (node :: nodes) = directivesIn [node] ++ directivesIn nodes := by
      rw [← List.singleton_append, directivesIn, List.filter_append, List.filterMap_append]
      rfl
    rw [hcons, ← List.append_assoc]
    exact ih (usings_after h node)

theorem usings_inside? {node : Node} (h : scope.inside? node = some inner) :
    inner.usings = scope.usings := by
  obtain ⟨name, rfl⟩ | rfl | rfl := Scope.inside?_eq_some h <;> rfl

theorem usings_reach? {steps : List Step} (h : scope.usings = known.eraseDups)
    (hr : scope.reach? steps = some inner) : inner.usings =
      (known ++ steps.flatMap fun step => directivesIn step.before).eraseDups := by
  induction steps generalizing scope known with
  | nil =>
    obtain rfl := Option.some.inj hr
    rw [List.flatMap_nil, List.append_nil]
    exact h
  | cons step steps ih =>
    obtain ⟨next, hn, hr⟩ := Option.bind_eq_some_iff.mp hr
    have hnext : next.usings = (known ++ directivesIn step.before).eraseDups := by
      rw [usings_inside? hn, usings_past h]
    rw [List.flatMap_cons, ← List.append_assoc]
    exact ih hnext hr

theorem containing_past (h : scope.containing = []) (nodes : List Node) :
    (scope.past nodes).containing = [] := by
  induction nodes generalizing scope with
  | nil => exact h
  | cons node nodes ih => exact ih (containing_after h node)

theorem containing_reach? {steps : List Step} (h : scope.containing = [])
    (hr : scope.reach? steps = some inner) : inner.containing = [] := by
  induction steps generalizing scope with
  | nil => exact Option.some.inj hr ▸ h
  | cons step steps ih =>
    obtain ⟨next, hn, hr⟩ := Option.bind_eq_some_iff.mp hr
    refine ih ?_ hr
    obtain ⟨name, rfl⟩ | rfl | rfl := Scope.inside?_eq_some hn
    · rfl
    · exact containing_past h step.before
    · exact containing_past h step.before

end Scopes

/-- What a symbol takes from its declaration itself and from the types around it. -/
structure Place.Declares (place : Place) (symbol : TypeSymbol) : Prop where
  name_eq : symbol.name = declaredName place.type
  containingTypes_eq : symbol.containingTypes = place.containers.map declaredName
  members_eq : symbol.members = place.members
  typeParameters_eq : symbol.typeParameters = typeParametersOf place.type

theorem Place.symbolFrom?_eq_some {place : Place} {symbol : TypeSymbol}
    (h : place.symbolFrom? {} = some symbol) :
    place.Declares symbol ∧ symbol.usings = place.directives.eraseDups := by
  obtain ⟨scope, hr, h⟩ := Option.bind_eq_some_iff.mp h
  rw [Nested.symbol?] at h
  split at h
  · obtain rfl := Option.some.inj h
    have hcontaining : scope.containing = [] := containing_reach? rfl hr
    have hknown : (Scope.usings {}) = ([] : List String).eraseDups := rfl
    refine ⟨⟨rfl, ?_, ?_, rfl⟩, usings_reach? hknown hr⟩
    · change scope.containing ++ place.containers.map declaredName = _
      rw [hcontaining, List.nil_append]
    · exact (Nested.members_eq place.toNested).symm
  · exact absurd h (by simp)

namespace Path

theorem scopes_sublist {path : Path} {place : Place} (h : path.place? = some place) :
    place.scopes.Sublist path := by
  cases path with
  | nil => rw [place?] at h; exact absurd h (by simp)
  | cons step rest =>
    obtain ⟨inner, hi | hi, rfl⟩ | ⟨-, inner, -, rfl⟩ := place?_cons h
    · exact (scopes_sublist hi).cons_cons step
    · obtain ⟨body, inward, rfl, hb⟩ := inBody?_eq_some hi
      exact ((scopes_sublist hb).cons body).cons_cons step
    · exact (List.nil_sublist rest).cons_cons step
termination_by path.length

theorem scopes_append {path rest : Path} {place inner : Place} (h : path.place? = some place)
    (hi : place? (path ++ rest) = some inner) : inner.scopes = place.scopes := by
  cases path with
  | nil => rw [place?] at h; exact absurd h (by simp)
  | cons step tail =>
    rw [List.cons_append, place?] at hi
    rw [place?] at h
    cases hk : step.node.kind <;> simp only [hk] at h hi
    case namespaceDeclaration =>
      obtain ⟨first, hf, rfl⟩ := Option.map_eq_some_iff.mp h
      obtain ⟨second, hs, rfl⟩ := Option.map_eq_some_iff.mp hi
      obtain ⟨body, inward, rfl, hfirst⟩ := inBody?_eq_some hf
      obtain ⟨_, _, heq, hsecond⟩ := inBody?_eq_some hs
      obtain ⟨rfl, rfl⟩ := List.cons.inj heq
      exact congrArg (step :: ·) (scopes_append hfirst hsecond)
    case fileScopedNamespace | declarationList =>
      obtain ⟨first, hf, rfl⟩ := Option.map_eq_some_iff.mp h
      obtain ⟨second, hs, rfl⟩ := Option.map_eq_some_iff.mp hi
      exact congrArg (step :: ·) (scopes_append hf hs)
    case typeDeclaration =>
      obtain ⟨first, -, rfl⟩ := Option.map_eq_some_iff.mp h
      obtain ⟨second, -, rfl⟩ := Option.map_eq_some_iff.mp hi
      rfl
    all_goals exact absurd h (by simp)
termination_by path.length

end Path

/-- The directives of a collected type are what those in front of it state, in the scopes on the way
to it and in document order. Only a directive without a blank behind its keyword is left out. A type
inside another has the directives of that. -/
theorem usings_recorded_exact (tree : Node) :
    (collectedIn tree).map (·.symbol) = collectTypes tree ∧
    ((collectedIn tree).map (·.path.position)).Pairwise (· < ·) ∧
    ∀ found ∈ collectedIn tree,
      found.path.Within tree ∧ found.path.place? = some found.place ∧
      found.place.Declares found.symbol ∧ found.place.scopes.Sublist found.path ∧
      found.symbol.usings =
        ((found.place.directiveNodes.filter isSpaced).filterMap statedTarget?).eraseDups ∧
      ((∀ directive ∈ found.place.directiveNodes, statedTarget? directive ≠ none →
          isSpaced directive = true) →
        found.symbol.usings = (found.place.directiveNodes.filterMap statedTarget?).eraseDups) ∧
      ∀ inner ∈ collectedIn tree, found.path <+: inner.path →
        inner.symbol.usings = found.symbol.usings := by
  refine ⟨map_symbol_collectedIn tree, pairwise_collectedIn tree, ?_⟩
  intro found hfound
  obtain ⟨hw, hp, hs⟩ := mem_collectedIn.mp hfound
  obtain ⟨hdeclares, husings⟩ := Place.symbolFrom?_eq_some hs
  refine ⟨hw, hp, hdeclares, Path.scopes_sublist hp, ?_, ?_, ?_⟩
  · rw [husings, Place.directives_eq]
  · intro hspaced
    rw [husings, Place.directives_eq, List.filterMap_filter]
    refine congrArg List.eraseDups (List.filterMap_congr ?_)
    intro directive hd
    split
    next => rfl
    next hnot =>
      by_contra hstated
      exact hnot (hspaced directive hd (Ne.symm hstated))
  · rintro inner hinner ⟨rest, hrest⟩
    obtain ⟨-, hip, his⟩ := mem_collectedIn.mp hinner
    rw [← hrest] at hip
    rw [(Place.symbolFrom?_eq_some his).2, husings, Place.directives, Place.directives,
      Path.scopes_append hp hip]

def commentedTree : Node :=
  .mk .compilationUnit none ""
    [.mk .usingDirective none "using/*c*/System;" [], namedNode .typeDeclaration "A" []]

theorem commented_directive_is_lost :
    (collectedIn commentedTree).map
        (fun found => (found.symbol, found.place.directiveNodes.filterMap statedTarget?)) =
      [({ name := "A" }, ["/*c*/System"])] := by
  decide +kernel

end HookEvents.CSharp
