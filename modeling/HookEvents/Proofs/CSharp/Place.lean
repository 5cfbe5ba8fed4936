import HookEvents.Proofs.CSharp.Variables

namespace HookEvents.CSharp

open Text

def declaredName (node : Node) : String := (textFor? node .name).getD ""

def fileScopedIn (nodes : List Node) : Option String :=
  (nodes.filter (·.kind = .fileScopedNamespace)).getLast?.map declaredName

def directivesIn (nodes : List Node) : List String :=
  (nodes.filter (·.kind = .usingDirective)).filterMap usingTarget?

namespace Step

def isBodyOf (step : Step) (parent : Node) : Bool :=
  isBodyAmong parent.children step.node && !step.before.any (isBodyAmong parent.children)

/-- The latest namespace without braces that encloses what follows or stands in front of it. -/
def fileScoped? (step : Step) : Option String := fileScopedIn (step.before ++ [step.node])

def block? (step : Step) : Option String :=
  if step.node.kind = .namespaceDeclaration then some (declaredName step.node) else none

def namespaces (step : Step) : List String := step.fileScoped?.toList ++ step.block?.toList

end Step

structure Nested where
  containers : List Node
  type : Node

def Nested.within (container : Node) (nested : Nested) : Nested :=
  { nested with containers := container :: nested.containers }

/-- The place of a type declaration. Each scope is left by one step, into the next scope or, at
last, to the outermost type. -/
structure Place extends Nested where
  scopes : List Step

def Place.behind (step : Step) (place : Place) : Place :=
  { place with scopes := step :: place.scopes }

namespace Path

mutual

def nested? (type : Node) : Path → Option Nested
  | [] => some ⟨[], type⟩
  | body :: rest =>
    if body.isBodyOf type then (member? rest).map (Nested.within type) else none

def member? : Path → Option Nested
  | [] => none
  | step :: rest => if step.node.kind = .typeDeclaration then nested? step.node rest else none

end

mutual

/-- The declaration at the end of a way out of a scope. It leads through namespaces and lists of
declarations to a type, and from there through types only. -/
def place? : Path → Option Place
  | [] => none
  | step :: rest =>
    match step.node.kind with
    | .namespaceDeclaration => (inBody? step.node rest).map (Place.behind step)
    | .fileScopedNamespace | .declarationList => (place? rest).map (Place.behind step)
    | .typeDeclaration => (nested? step.node rest).map fun inner => { inner with scopes := [step] }
    | _ => none

def inBody? (parent : Node) : Path → Option Place
  | [] => none
  | body :: rest => if body.isBodyOf parent then place? rest else none

end

end Path

def declaringParts (node : Node) : List Node :=
  match node.kind with
  | .fieldDeclaration | .eventFieldDeclaration => declarators node
  | .methodDeclaration | .propertyDeclaration | .eventDeclaration | .indexerDeclaration
  | .typeDeclaration => [node]
  | _ => []

def memberOf? (part : Node) : Option Member :=
  match part.kind with
  | .methodDeclaration => (method? part).map Member.method
  | .variableDeclarator => (variableName? part).map Member.field
  | .propertyDeclaration | .eventDeclaration | .indexerDeclaration =>
    (textFor? part .name).map Member.property
  | .typeDeclaration => (textFor? part .name).map Member.nestedType
  | _ => none

def joined (names : List String) : Option String :=
  if names = [] then none else some (join "." names)

namespace Nested

def members (nested : Nested) : List Member :=
  ((((body? nested.type).map Node.children).getD []).flatMap declaringParts).filterMap memberOf?

end Nested

namespace Place

def namespaces (place : Place) : List String := place.scopes.flatMap Step.namespaces

def blocks (place : Place) : List String := place.scopes.filterMap Step.block?

def directives (place : Place) : List String :=
  place.scopes.flatMap fun step => directivesIn step.before

def symbolUnder (outer known : List String) (place : Place) : TypeSymbol where
  name := declaredName place.type
  namespaceName := joined (outer ++ place.namespaces)
  containingTypes := place.containers.map declaredName
  members := place.members
  typeParameters := typeParametersOf place.type
  usings := (known ++ place.directives).eraseDups

def symbol (place : Place) : TypeSymbol := place.symbolUnder [] []

theorem symbolUnder_behind (outer known : List String) (step : Step) (place : Place) :
    (place.behind step).symbolUnder outer known =
      place.symbolUnder (outer ++ step.namespaces) (known ++ directivesIn step.before) := by
  simp only [symbolUnder, behind, namespaces, directives, List.flatMap_cons, List.append_assoc]

end Place

namespace Path

theorem place?_cons {step : Step} {rest : Path} {place : Place}
    (h : place? (step :: rest) = some place) :
    (∃ inner, (rest.place? = some inner ∨ inBody? step.node rest = some inner) ∧
      place = inner.behind step) ∨
    (step.node.kind = .typeDeclaration ∧
      ∃ inner, nested? step.node rest = some inner ∧ place = { inner with scopes := [step] }) := by
  rw [place?] at h
  cases hk : step.node.kind <;> simp only [hk] at h
  case namespaceDeclaration =>
    obtain ⟨inner, hi, rfl⟩ := Option.map_eq_some_iff.mp h
    exact .inl ⟨inner, .inr hi, rfl⟩
  case fileScopedNamespace | declarationList =>
    obtain ⟨inner, hi, rfl⟩ := Option.map_eq_some_iff.mp h
    exact .inl ⟨inner, .inl hi, rfl⟩
  case typeDeclaration =>
    obtain ⟨inner, hi, rfl⟩ := Option.map_eq_some_iff.mp h
    exact .inr ⟨rfl, inner, hi, rfl⟩
  all_goals exact absurd h (by simp)

theorem inBody?_eq_some {parent : Node} {path : Path} {place : Place}
    (h : inBody? parent path = some place) :
    ∃ body, ∃ rest : Path, path = body :: rest ∧ rest.place? = some place := by
  cases path with
  | nil => rw [inBody?] at h; exact absurd h (by simp)
  | cons body rest =>
    rw [inBody?] at h
    split at h
    · exact ⟨body, rest, rfl, h⟩
    · exact absurd h (by simp)

theorem nested?_cons {type : Node} {body : Step} {rest : Path} {nested : Nested}
    (h : nested? type (body :: rest) = some nested) :
    ∃ step, ∃ inward : Path, rest = step :: inward ∧ step.node.kind = .typeDeclaration ∧
      ∃ inner, nested? step.node inward = some inner ∧ nested = inner.within type := by
  rw [nested?] at h
  split at h
  · obtain ⟨inner, hi, rfl⟩ := Option.map_eq_some_iff.mp h
    cases rest with
    | nil => rw [member?] at hi; exact absurd hi (by simp)
    | cons step inward =>
      rw [member?] at hi
      split at hi
      next hk => exact ⟨step, inward, rfl, hk, inner, hi, rfl⟩
      next => exact absurd hi (by simp)
  · exact absurd h (by simp)

theorem nested?_last {type : Node} {path : Path} {nested : Nested}
    (hk : type.kind = .typeDeclaration) (h : nested? type path = some nested) :
    nested.type = path.last type ∧ nested.type.kind = .typeDeclaration := by
  cases path with
  | nil =>
    rw [nested?] at h
    cases h
    exact ⟨rfl, hk⟩
  | cons body rest =>
    obtain ⟨step, inward, rfl, hs, inner, hi, rfl⟩ := nested?_cons h
    have hlast := nested?_last hs hi
    exact hlast
termination_by path.length

theorem place?_last (start : Node) {path : Path} {place : Place} (h : path.place? = some place) :
    place.type = path.last start ∧ place.type.kind = .typeDeclaration := by
  cases path with
  | nil => rw [place?] at h; exact absurd h (by simp)
  | cons step rest =>
    obtain ⟨inner, hi | hi, rfl⟩ | ⟨hk, inner, hi, rfl⟩ := place?_cons h
    · have hlast := place?_last step.node hi
      exact hlast
    · obtain ⟨body, inward, rfl, hb⟩ := inBody?_eq_some hi
      have hlast := place?_last body.node hb
      exact hlast
    · have hlast := nested?_last hk hi
      exact hlast
termination_by path.length

end Path

section FileScoped

def Node.BlocksInside (node : Node) : Prop :=
  ∀ inner ∈ Node.nodesIn node.children, inner.kind ≠ .fileScopedNamespace

instance : DecidablePred Node.BlocksInside :=
  fun node => inferInstanceAs (Decidable (∀ inner ∈ Node.nodesIn node.children,
    inner.kind ≠ .fileScopedNamespace))

theorem Node.BlocksInside.child {node child : Node} (h : node.BlocksInside)
    (hc : child ∈ node.children) : child.kind ≠ .fileScopedNamespace ∧ child.BlocksInside := by
  have hall : ∀ inner ∈ child.nodes, inner.kind ≠ .fileScopedNamespace := by
    intro inner hi
    apply h
    rw [Node.nodesIn_eq_flatMap]
    exact List.mem_flatMap.mpr ⟨child, hc, hi⟩
  rw [Node.nodes_eq] at hall
  exact List.forall_mem_cons.mp hall

theorem Step.fileScoped?_of_blocks {start : Node} {step : Step} {after : List Node}
    (h : start.BlocksInside) (hc : start.children = step.before ++ step.node :: after) :
    step.fileScoped? = none := by
  have hnone : (step.before ++ [step.node]).filter (·.kind = .fileScopedNamespace) = [] := by
    apply List.filter_eq_nil_iff.mpr
    intro node hm
    have hmem : node ∈ start.children := by
      rw [hc, List.append_cons]
      exact List.mem_append_left _ hm
    simpa using (h.child hmem).1
  rw [fileScoped?, fileScopedIn, hnone]
  rfl

theorem Place.namespaces_behind (step : Step) (place : Place) :
    (place.behind step).namespaces = step.namespaces ++ place.namespaces := by
  rw [namespaces, behind, List.flatMap_cons]
  rfl

theorem Place.blocks_behind (step : Step) (place : Place) :
    (place.behind step).blocks = step.block?.toList ++ place.blocks := by
  rw [blocks, behind, List.filterMap_cons]
  cases step.block? <;> rfl

theorem Place.namespaces_cons {step : Step} {rest : Path} {place : Place}
    (h : step.node.BlocksInside) (hw : rest.Within step.node)
    (hp : Path.place? (step :: rest) = some place) :
    place.namespaces = step.fileScoped?.toList ++ place.blocks := by
  have hinner {node : Node} {path : Path} {inner : Place} (hlen : path.length ≤ rest.length)
      (hb : node.BlocksInside) (hpath : path.Within node) (hi : path.place? = some inner) :
      inner.namespaces = inner.blocks := by
    cases path with
    | nil => rw [Path.place?] at hi; exact absurd hi (by simp)
    | cons next inward =>
      obtain ⟨⟨after, hc⟩, hinward⟩ := hpath
      have hnext := (hb.child (hc ▸ List.mem_append_right _ List.mem_cons_self)).2
      rw [namespaces_cons hnext hinward hi, Step.fileScoped?_of_blocks hb hc]
      rfl
  obtain ⟨inner, hi | hi, rfl⟩ | ⟨hk, inner, hi, rfl⟩ := Path.place?_cons hp
  · rw [namespaces_behind, blocks_behind, hinner (Nat.le_refl _) h hw hi, Step.namespaces,
      List.append_assoc]
  · obtain ⟨body, inward, rfl, hb⟩ := Path.inBody?_eq_some hi
    obtain ⟨⟨after, hc⟩, hinward⟩ := hw
    have hbody := (h.child (hc ▸ List.mem_append_right _ List.mem_cons_self)).2
    rw [namespaces_behind, blocks_behind, hinner (by simp) hbody hinward hb, Step.namespaces,
      List.append_assoc]
  · simp [namespaces, blocks, Step.namespaces, Step.block?, hk]
termination_by rest.length

end FileScoped

section Members

theorem map_field_variableNames (node : Node) :
    (variableNames node).map Member.field = (declarators node).filterMap memberOf? := by
  rw [variableNames_eq, List.map_filterMap]
  apply List.filterMap_congr
  intro part hp
  rw [memberOf?, kind_of_mem_declarators hp]

theorem membersOf_eq (node : Node) : membersOf node = (declaringParts node).filterMap memberOf? := by
  cases hk : node.kind
  case fieldDeclaration | eventFieldDeclaration =>
    simp only [membersOf, declaringParts, hk]
    exact map_field_variableNames node
  case methodDeclaration =>
    simp only [membersOf, declaringParts, memberOf?, hk, List.filterMap_cons, List.filterMap_nil]
    cases method? node <;> rfl
  case propertyDeclaration | eventDeclaration | indexerDeclaration | typeDeclaration =>
    simp only [membersOf, declaringParts, memberOf?, hk, List.filterMap_cons, List.filterMap_nil]
    cases textFor? node .name <;> rfl
  all_goals simp only [membersOf, declaringParts, hk, List.filterMap_nil]

end Members

end HookEvents.CSharp
