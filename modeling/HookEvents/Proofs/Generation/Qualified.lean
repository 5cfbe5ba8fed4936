import HookEvents.Proofs.Generation.Alike
import HookEvents.Proofs.Generation.Resolve
import HookEvents.Proofs.TypeText.Table
import Mathlib.Data.List.Forall2

namespace HookEvents

structure Method.Retyped (method other : Method) : Prop where
  name : other.name = method.name
  isStatic : other.isStatic = method.isStatic
  typeParameters : other.typeParameters = method.typeParameters
  parameters : other.parameters.length = method.parameters.length
  returnType : other.returnType.isSome = method.returnType.isSome

theorem Method.retyped_mapTypes (f : String → String) (method : Method) :
    method.Retyped (method.mapTypes f) where
  name := rfl
  isStatic := rfl
  typeParameters := rfl
  parameters := List.length_map _
  returnType := Option.isSome_map

inductive Member.Retyped : Member → Member → Prop
  | method {method other : Method} (h : method.Retyped other) :
      Retyped (.method method) (.method other)
  | same {member : Member} (h : member.method? = none) : Retyped member member

theorem Member.retyped_mapTypes (f : String → String) (member : Member) :
    member.Retyped (member.mapTypes f) := by
  cases member with
  | method method => exact .method (method.retyped_mapTypes f)
  | field name => exact .same rfl
  | property name => exact .same rfl
  | nestedType name => exact .same rfl

namespace TypeSymbol

structure Retyped (symbol other : TypeSymbol) : Prop where
  bare : symbol.bare = other.bare
  members : List.Forall₂ Member.Retyped symbol.members other.members

structure FirstAt (symbol : TypeSymbol) (name : String) (place : Nat) (method : Method) : Prop where
  here : symbol.members[place]? = some (.method method)
  named : method.name = name
  first : ∀ i < place, ∀ earlier, symbol.members[i]? = some (.method earlier) → earlier.name ≠ name

theorem exists_firstAt {symbol : TypeSymbol} {name : String} {method : Method}
    (h : symbol.methodNamed name = some method) : ∃ place, symbol.FirstAt name place method := by
  rw [methodNamed, methods, List.find?_filterMap, Option.bind_eq_some_iff] at h
  obtain ⟨member, hfind, hmethod⟩ := h
  obtain ⟨hmember, place, hplace, rfl, hfirst⟩ := List.find?_eq_some_iff_getElem.mp hfind
  have hhere : symbol.members[place] = .method method := by
    cases hm : symbol.members[place] <;> simp_all [Member.method?]
  refine ⟨place, ?_, ?_, ?_⟩
  · rw [List.getElem?_eq_getElem hplace, hhere]
  · simpa [hmethod] using hmember
  · intro i hi earlier he
    obtain ⟨hlt, he⟩ := List.getElem?_eq_some_iff.mp he
    simpa [he, Member.method?] using hfirst i hi

section

variable (f : String → String) (symbol : TypeSymbol)

theorem retyped_mapTypes : symbol.Retyped (symbol.mapTypes f) where
  bare := rfl
  members := by
    rw [mapTypes, List.forall₂_map_right_iff, List.forall₂_same]
    exact fun member _ => member.retyped_mapTypes f

theorem methodNamed_mapTypes (name : String) :
    (symbol.mapTypes f).methodNamed name = (symbol.methodNamed name).map (Method.mapTypes f) := by
  rw [methodNamed, methods_mapTypes, List.find?_map]
  rfl

variable {symbol}

theorem FirstAt.mapTypes {name : String} {place : Nat} {method : Method}
    (h : symbol.FirstAt name place method) :
    (symbol.mapTypes f).FirstAt name place (method.mapTypes f) where
  here := by
    rw [TypeSymbol.mapTypes, List.getElem?_map, h.here]
    rfl
  named := h.named
  first i hi earlier he := by
    rw [TypeSymbol.mapTypes, List.getElem?_map] at he
    obtain ⟨member, hm, he⟩ := Option.map_eq_some_iff.mp he
    cases member with
    | method original =>
      obtain rfl := Member.method.inj he
      exact h.first i hi original hm
    | field _ => exact absurd he (by simp [Member.mapTypes])
    | property _ => exact absurd he (by simp [Member.mapTypes])
    | nestedType _ => exact absurd he (by simp [Member.mapTypes])

end

end TypeSymbol

theorem isOpenIn_qualifyTypes (table : TypeTable) (symbol : TypeSymbol) :
    (symbol.qualifyTypes table).isOpenIn table.qualifyTypes.model =
      symbol.isOpenIn table.model := by
  have hentry (name : String) : (table.qualifyTypes.model name).any TypeSymbol.isGeneric =
      (table.model name).any TypeSymbol.isGeneric := by
    rw [TypeTable.model, TypeTable.get?_qualifyTypes, Option.any_map]
    rfl
  rw [TypeSymbol.isOpenIn, funext hentry]
  rfl

def ResolvedHook.qualifyTypes (table : TypeTable) (hook : ResolvedHook) : ResolvedHook where
  kind := hook.kind
  declaringType := hook.declaringType.qualifyTypes table
  method := hook.method.mapTypes (table.qualifyTextIn hook.declaringType)

theorem resolve_qualifyTypes (table : TypeTable) (reference : HookReference) :
    resolve table.qualifyTypes.model reference =
      (resolve table.model reference).map (ResolvedHook.qualifyTypes table) := by
  rw [resolve, resolve, TypeTable.model, TypeTable.get?_qualifyTypes, TypeTable.model]
  cases table.get? reference.typeName with
  | none => rfl
  | some symbol =>
    have hopen := isOpenIn_qualifyTypes table symbol
    rw [TypeTable.model, TypeTable.model] at hopen
    dsimp only [Option.map_some]
    rw [hopen, TypeSymbol.qualifyTypes_eq, TypeSymbol.methodNamed_mapTypes]
    cases symbol.methodNamed reference.methodName with
    | none => rfl
    | some method =>
      have hgeneric : (method.mapTypes (table.qualifyTextIn symbol)).isGeneric =
          method.isGeneric := rfl
      dsimp only [Option.map_some]
      rw [hgeneric]
      split
      · rfl
      · split <;> rfl

/-- Both leave the reference out for the same reason, or both find the method at the same place
among the members of the same type. -/
inductive SamePlace (reference : HookReference) :
    Except UnresolvedReason ResolvedHook → Except UnresolvedReason ResolvedHook → Prop
  | error (reason : UnresolvedReason) : SamePlace reference (.error reason) (.error reason)
  | ok {hook other : ResolvedHook} (place : Nat) (hkind : other.kind = hook.kind)
    (htype : hook.declaringType.Retyped other.declaringType)
    (hmethod : hook.method.Retyped other.method)
    (hfound : hook.declaringType.FirstAt reference.methodName place hook.method)
    (hother : other.declaringType.FirstAt reference.methodName place other.method) :
    SamePlace reference (.ok hook) (.ok other)

theorem samePlace_qualifyTypes (table : TypeTable) (reference : HookReference) :
    SamePlace reference (resolve table.model reference)
      (resolve table.qualifyTypes.model reference) := by
  rw [resolve_qualifyTypes]
  cases h : resolve table.model reference with
  | error reason => exact .error reason
  | ok hook =>
    obtain ⟨-, -, hnamed, -, -⟩ := resolve_eq_ok_iff.mp h
    obtain ⟨place, hplace⟩ := TypeSymbol.exists_firstAt hnamed
    exact .ok place rfl (TypeSymbol.retyped_mapTypes _ _) (Method.retyped_mapTypes _ _) hplace
      (hplace.mapTypes _)

/-- Qualification changes nothing but texts of types in methods, and no reference resolves otherwise
for it. -/
theorem qualifyTypes_keeps_resolution (table : TypeTable) :
    table.qualifyTypes.names = table.names ∧
    List.Forall₂ TypeSymbol.Retyped table.types table.qualifyTypes.types ∧
    ∀ reference, SamePlace reference (resolve table.model reference)
      (resolve table.qualifyTypes.model reference) := by
  refine ⟨table.names_qualifyTypes, ?_, samePlace_qualifyTypes table⟩
  rw [table.types_qualifyTypes, List.forall₂_map_right_iff, List.forall₂_same]
  exact fun symbol _ => TypeSymbol.retyped_mapTypes _ symbol

end HookEvents
