import HookEvents.CSharp.Types
import HookEvents.Proofs.Symbol.Roundtrip

namespace HookEvents.CSharp

def IsDeclared (symbol : TypeSymbol) : Prop :=
  ∃ scope name node, symbol = symbolOf scope name node

mutual

theorem isDeclared_typesOf (scope : Scope) : ∀ node : Node,
    ∀ symbol ∈ typesOf scope node, IsDeclared symbol
  | .mk kind role text children => by
    rw [typesOf.eq_def]
    dsimp only
    split
    · split
      · exact isDeclared_typesInBody _ _ children
      · simp
    · split
      · exact isDeclared_typesIn _ children
      · simp
    · exact isDeclared_typesIn _ children
    · split
      · rw [List.forall_mem_cons]
        exact ⟨⟨_, _, _, rfl⟩, isDeclared_nestedInBody _ _ children⟩
      · simp
    · simp

theorem isDeclared_typesIn (scope : Scope) : ∀ nodes : List Node,
    ∀ symbol ∈ typesIn scope nodes, IsDeclared symbol
  | [] => by simp [typesIn]
  | node :: nodes => by
    rw [typesIn, List.forall_mem_append]
    exact ⟨isDeclared_typesOf scope node, isDeclared_typesIn _ nodes⟩

theorem isDeclared_typesWithin (scope : Scope) : ∀ node : Node,
    ∀ symbol ∈ typesWithin scope node, IsDeclared symbol
  | .mk _ _ _ children => isDeclared_typesIn scope children

theorem isDeclared_typesInBody (isBody : Node → Bool) (scope : Scope) : ∀ nodes : List Node,
    ∀ symbol ∈ typesInBody isBody scope nodes, IsDeclared symbol
  | [] => by simp [typesInBody]
  | node :: nodes => by
    rw [typesInBody]
    split
    · exact isDeclared_typesWithin scope node
    · exact isDeclared_typesInBody isBody scope nodes

theorem isDeclared_nestedIn (scope : Scope) : ∀ nodes : List Node,
    ∀ symbol ∈ nestedIn scope nodes, IsDeclared symbol
  | [] => by simp [nestedIn]
  | node :: nodes => by
    rw [nestedIn, List.forall_mem_append]
    refine ⟨?_, isDeclared_nestedIn scope nodes⟩
    split
    · exact isDeclared_typesOf scope node
    · simp

theorem isDeclared_nestedWithin (scope : Scope) : ∀ node : Node,
    ∀ symbol ∈ nestedWithin scope node, IsDeclared symbol
  | .mk _ _ _ children => isDeclared_nestedIn scope children

theorem isDeclared_nestedInBody (isBody : Node → Bool) (scope : Scope) : ∀ nodes : List Node,
    ∀ symbol ∈ nestedInBody isBody scope nodes, IsDeclared symbol
  | [] => by simp [nestedInBody]
  | node :: nodes => by
    rw [nestedInBody]
    split
    · exact isDeclared_nestedWithin scope node
    · exact isDeclared_nestedInBody isBody scope nodes

end

theorem namesResults_withReturnType (method : Method) (text : String) :
    (Member.method (method.withReturnType text)).NamesResults := by
  intro result hr
  rw [Method.withReturnType, Option.mem_def] at hr
  dsimp only at hr
  exact Method.isVoidText_of_returnTypeOf hr

theorem namesResults_membersOf (node : Node) : ∀ member ∈ membersOf node, member.NamesResults := by
  intro member hm
  cases member with
  | method method =>
    rw [membersOf] at hm
    split at hm
    · have hmethod : method? node = some method := by simpa using hm
      obtain ⟨name, -, rfl⟩ := Option.map_eq_some_iff.mp hmethod
      exact namesResults_withReturnType (Method.withStatic { name } (isStaticMethod node)) _
    all_goals simp at hm
  | field _ | property _ | nestedType _ => trivial

theorem namesResults_collectTypes (tree : Node) :
    ∀ symbol ∈ collectTypes tree, ∀ member ∈ symbol.members, member.NamesResults := by
  intro symbol hs member hm
  obtain ⟨scope, name, node, rfl⟩ := isDeclared_typesIn {} tree.children symbol hs
  change member ∈ ((body? node).map fun body => (body.children.map membersOf).flatten).getD [] at hm
  cases hbody : body? node with
  | none =>
    rw [hbody] at hm
    exact absurd hm List.not_mem_nil
  | some body =>
    rw [hbody, Option.map_some, Option.getD_some, List.mem_flatten] at hm
    obtain ⟨members, hmembers, hm⟩ := hm
    obtain ⟨child, -, rfl⟩ := List.mem_map.mp hmembers
    exact namesResults_membersOf child member hm

end HookEvents.CSharp
